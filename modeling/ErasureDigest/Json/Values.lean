import ErasureDigest.Digest.Record
import ErasureDigest.Json.Document
import ErasureDigest.Json.Reader
import ErasureDigest.Profile

/-!
# Domain values as JSON

A checksum is the text of its digits, a name is a text, and records are
objects with their fields in order of declaration. Reading takes the fields
in any order, and a list of the values in their own.
-/

namespace ErasureDigest

/-! ## Checksums and names -/

/-- A checksum as the text of its digits. -/
def Checksum.toJson (c : Checksum) : Json := .text c.toHex

/-- Reads a checksum. -/
def Checksum.ofJson : Json.Reader Checksum := do
  match Checksum.ofHex (← Json.Reader.text) with
  | .ok c => pure c
  | .error error => throw (.mismatch (.checksum error))

/-- A kind of redundancy as its name. -/
def Redundancy.toJson (r : Redundancy) : Json := .text r.name

/-- Reads a kind of redundancy. -/
def Redundancy.ofJson : Json.Reader Redundancy :=
  Json.Reader.variant (([.replica, .erasureCoded] : List Redundancy).map fun r => (r.name, r))

/-- A strategy as its name. -/
def Strategy.toJson (s : Strategy) : Json := .text s.name

/-- Reads a strategy. -/
def Strategy.ofJson : Json.Reader Strategy :=
  Json.Reader.variant (([.serial, .parallel] : List Strategy).map fun s => (s.name, s))

/-! ## Layouts and profiles -/

namespace Layout

/-- A layout as a record. -/
def toJson (l : Layout) : Json :=
  .record [("data_shards", .number l.dataShards), ("parity_shards", .number l.parityShards)]

/-- The fields of a layout that have been read. -/
structure Draft where
  dataShards? : Option UInt64
  parityShards? : Option UInt64

/-- The fields of a layout. -/
def jsonFields : List (Json.Reader.Field Draft) :=
  [Json.Reader.field "data_shards" (·.dataShards?) (fun p n => { p with dataShards? := some n })
      (Json.Reader.natural "usize"),
    Json.Reader.field "parity_shards" (·.parityShards?)
      (fun p n => { p with parityShards? := some n }) (Json.Reader.natural "usize")]

/-- Reads a layout. -/
def ofJson : Json.Reader Layout :=
  Json.Reader.record "ErasureConfig" jsonFields ⟨none, none⟩ fun p => do
    pure ⟨← p.dataShards?, ← p.parityShards?⟩

end Layout

namespace Profile

/-- A profile as a record. -/
def toJson (p : Profile) : Json :=
  .record [("segment_size", .number p.segmentSize), ("erasure", p.layout.toJson)]

/-- The fields of a profile that have been read. -/
structure Draft where
  segmentSize? : Option UInt64
  layout? : Option Layout

/-- The fields of a profile. -/
def jsonFields : List (Json.Reader.Field Draft) :=
  [Json.Reader.field "segment_size" (·.segmentSize?)
      (fun p n => { p with segmentSize? := some n }) (Json.Reader.natural "usize"),
    Json.Reader.field "erasure" (·.layout?) (fun p l => { p with layout? := some l }) Layout.ofJson]

/-- Reads a profile. -/
def ofJson : Json.Reader Profile :=
  Json.Reader.record "HashConfig" jsonFields ⟨none, none⟩ fun p => do
    pure ⟨← p.segmentSize?, ← p.layout?⟩

end Profile

/-! ## Digests -/

namespace Digest

/-- The fields of a digest as written. -/
def toFields (d : Digest) : List (String × Json) :=
  [("integrity_hashes", .list (d.roots.map Checksum.toJson)),
    ("content_length", .number d.contentLength), ("redundancy_type", d.redundancy.toJson)]

/-- A digest as a record. -/
def toJson (d : Digest) : Json := .record d.toFields

/-- The fields of a digest that have been read. -/
structure Draft where
  roots? : Option (List Checksum)
  contentLength? : Option UInt64
  redundancy? : Option Redundancy

/-- The fields of a digest. -/
def jsonFields : List (Json.Reader.Field Draft) :=
  [Json.Reader.field "integrity_hashes" (·.roots?) (fun p r => { p with roots? := some r })
      (Json.Reader.sequence Checksum.ofJson),
    Json.Reader.field "content_length" (·.contentLength?)
      (fun p n => { p with contentLength? := some n }) (Json.Reader.natural "u64"),
    Json.Reader.field "redundancy_type" (·.redundancy?)
      (fun p r => { p with redundancy? := some r }) Redundancy.ofJson]

/-- Reads a digest. -/
def ofJson : Json.Reader Digest :=
  Json.Reader.record "IntegrityResult" jsonFields ⟨none, none, none⟩ fun p => do
    pure ⟨← p.roots?, ← p.contentLength?, ← p.redundancy?⟩

end Digest

end ErasureDigest
