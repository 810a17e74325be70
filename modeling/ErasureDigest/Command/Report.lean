import ErasureDigest.Command.Failure
import ErasureDigest.Hashing.Content
import ErasureDigest.Json.Values
import ErasureDigest.Text.ByteSize

/-!
# Hashing a target and reporting the digest

A report tells the digest of a target together with what it was computed
with: in lines for people, or as one JSON record that holds the digest's own
fields besides.
-/

namespace ErasureDigest

namespace Command

/-- A digest, and what it was computed from and with. -/
structure Report where
  target : String
  profile : Profile
  strategy : Strategy
  digest : Digest

namespace Report

/-- The name of a shard position. -/
def label (layout : Layout) (position : Nat) : String :=
  if position < layout.dataShards.toNat then s!"data {position}"
  else s!"parity {position - layout.dataShards.toNat}"

/-- A root after its name, which fills eight places. -/
def rootLine (name : String) (root : Checksum) : String :=
  let column := String.ofList (name.toList.rightpad 8 ' ')
  s!"  {column} {root}"

/-- The lines of a report. -/
def lines (report : Report) : List String :=
  let length := report.digest.contentLength.toNat
  let profile := report.profile
  let layout := profile.layout
  let size := ByteSize.words length
  let count := profile.segmentCount length
  let unit := ByteSize.words profile.segmentSize.toNat
  let redundancy := report.digest.redundancy
  [s!"✓ {report.target}",
    s!"  Size:     {size} ({length} bytes)",
    s!"  Segments: {count} x {unit}",
    s!"  Layout:   {layout.dataShards} data + {layout.parityShards} parity ({redundancy})",
    "",
    "  ───────"] ++
  report.digest.primaryRoot?.toList.map (rootLine "primary") ++
  report.digest.shardRoots.mapIdx fun position root => rootLine (label layout position) root

/-- A report as a record. -/
def toJson (report : Report) : Json :=
  .record ([("source", .text report.target),
    ("segment_size", .number report.profile.segmentSize),
    ("data_shards", .number report.profile.layout.dataShards),
    ("parity_shards", .number report.profile.layout.parityShards),
    ("strategy", report.strategy.toJson)] ++ report.digest.toFields)

/-- The text of a report. -/
def render (report : Report) (json : Bool) : List String :=
  if json then [report.toJson.toPretty] else report.lines

end Report

/-- The digest of a target: of standard input, or of a file. -/
def digestTarget (fs : FileSystem) (input : Source) (target : String) (profile : Profile)
    (strategy : Strategy) (cores : Nat := 1) : Except Error Digest :=
  if target = standardInput then profile.digest strategy input cores
  else profile.digestFile strategy fs target cores

/-- Hashes a target and reports its digest. -/
def hashTarget (fs : FileSystem) (input : Source) (target : String) (profile : Profile)
    (strategy : Strategy) (cores : Nat := 1) : Except Failure Report :=
  match digestTarget fs input target profile strategy cores with
  | .error error => .error (.hash target error)
  | .ok digest => .ok ⟨target, profile, strategy, digest⟩

end Command

end ErasureDigest
