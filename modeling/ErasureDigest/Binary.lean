import ErasureDigest.Digest.Record
import ErasureDigest.Profile

/-!
# The binary form

Numbers are written in eight bytes, least significant first, lists with
their length in front, records field by field, and the name of a variant as
its position in four bytes. A checksum is written as one string of bytes and
read as a list of single bytes, which has to turn out 32 long. Reading takes
what it needs and leaves the rest, so written values can follow one another.
-/

namespace ErasureDigest

namespace Binary

/-- Why bytes are no value. -/
inductive Fault
  /-- The bytes end too early. -/
  | truncated
  /-- A checksum is not 32 bytes long. -/
  | checksumLength
  /-- No variant has this position. -/
  | variant (position count : Nat)
  deriving DecidableEq, Repr

/-- The fault in words. -/
def Fault.message : Fault → String
  | truncated => "io error: unexpected end of file"
  | checksumLength => "Invalid checksum length"
  | variant position count =>
    s!"invalid value: integer `{position}`, expected variant index 0 <= i < {count}"

/-- Reads a value from the front of some bytes and leaves those after it. -/
abbrev Decoder := StateT Bytes (Except Fault)

/-! ## Numbers and lists -/

/-- The next byte. -/
def readByte : Decoder UInt8 := do
  match ← get with
  | [] => throw .truncated
  | byte :: rest =>
    set rest
    pure byte

/-- The next `count` bytes. -/
def readBytes (count : Nat) : Decoder Bytes := do
  let bytes ← get
  let taken := bytes.take count
  if taken.length < count then throw .truncated
  set (bytes.drop count)
  pure taken

/-- A number in eight bytes. -/
def ofNumber (n : UInt64) : Bytes := Bytes.littleEndian 8 n.toNat

/-- Reads a number in eight bytes. -/
def readNumber : Decoder UInt64 := do
  let taken ← readBytes 8
  pure (UInt64.ofNat (Bytes.toNat taken))

/-- A variant's position in four bytes. -/
def ofPosition (n : Nat) : Bytes := Bytes.littleEndian 4 n

/-- Reads the position of one of these variants. -/
def readVariant {α : Type} (variants : List α) : Decoder α := do
  let taken ← readBytes 4
  let position := Bytes.toNat taken
  match variants[position]? with
  | some variant => pure variant
  | none => throw (.variant position variants.length)

/-- A string of bytes, its length in front. -/
def ofBytes (bytes : Bytes) : Bytes := ofNumber (UInt64.ofNat bytes.length) ++ bytes

/-- Values one after the other, their number in front. -/
def ofList {α : Type} (write : α → Bytes) (values : List α) : Bytes :=
  ofNumber (UInt64.ofNat values.length) ++ values.flatMap write

/-- Reads `count` values one after the other. -/
def readMany {α : Type} (read : Decoder α) : (count : Nat) → Decoder (List α)
  | 0 => pure []
  | count + 1 => do
    let value ← read
    let values ← readMany read count
    pure (value :: values)

/-- Reads values with their number in front. -/
def readList {α : Type} (read : Decoder α) : Decoder (List α) := do
  let count ← readNumber
  readMany read count.toNat

/-! ## Values -/

/-- A checksum, as a string of bytes. -/
def ofChecksum (c : Checksum) : Bytes := ofBytes c.bytes

/-- Reads a checksum: a list of bytes, whose number is checked at the end. -/
def readChecksum : Decoder Checksum := do
  let taken ← readList readByte
  match Checksum.ofBytes? taken with
  | some c => pure c
  | none => throw .checksumLength

/-- The kinds of redundancy, in order of position. -/
def redundancies : List Redundancy := [.replica, .erasureCoded]

/-- A kind of redundancy, as its position. -/
def ofRedundancy (r : Redundancy) : Bytes := ofPosition (redundancies.idxOf r)

/-- The strategies, in order of position. -/
def strategies : List Strategy := [.serial, .parallel]

/-- A strategy, as its position. -/
def ofStrategy (s : Strategy) : Bytes := ofPosition (strategies.idxOf s)

/-- A digest: its roots, its length, its redundancy. -/
def ofDigest (d : Digest) : Bytes :=
  ofList ofChecksum d.roots ++ ofNumber d.contentLength ++ ofRedundancy d.redundancy

/-- Reads a digest. -/
def readDigest : Decoder Digest := do
  let roots ← readList readChecksum
  let contentLength ← readNumber
  let redundancy ← readVariant redundancies
  pure ⟨roots, contentLength, redundancy⟩

/-- A layout: its data shards, its parity shards. -/
def ofLayout (l : Layout) : Bytes := ofNumber l.dataShards ++ ofNumber l.parityShards

/-- Reads a layout. -/
def readLayout : Decoder Layout := do
  let dataShards ← readNumber
  let parityShards ← readNumber
  pure ⟨dataShards, parityShards⟩

/-- A profile: its segment size, its layout. -/
def ofProfile (p : Profile) : Bytes := ofNumber p.segmentSize ++ ofLayout p.layout

/-- Reads a profile. -/
def readProfile : Decoder Profile := do
  let segmentSize ← readNumber
  let layout ← readLayout
  pure ⟨segmentSize, layout⟩

end Binary

end ErasureDigest
