import ErasureDigest.Coding.ReedSolomon
import ErasureDigest.Stream.Segmenter

/-!
# Profiles

A profile fixes what a digest depends on besides the content: the segment
size and the shard layout. The strategy says how the work is done and
changes nothing in the digest.
-/

namespace ErasureDigest

/-- Segment size and shard layout. -/
structure Profile where
  /-- Bytes per segment. -/
  segmentSize : UInt64
  layout : Layout
  deriving DecidableEq, Repr

namespace Profile

/-- Segments of sixteen mebibytes in the standard layout. -/
def standard : Profile := ⟨16777216, .standard⟩

instance : Inhabited Profile := ⟨standard⟩

/-- Accepts a profile that can be computed with; the segment size is
checked before the layout. -/
def check (profile : Profile) : Except Error Unit := do
  checkSegmentSize profile.segmentSize.toNat
  profile.layout.check

/-- A profile, if it is accepted. -/
def ofNumbers (segmentSize dataShards parityShards : UInt64) : Except Error Profile := do
  let profile : Profile := ⟨segmentSize, ⟨dataShards, parityShards⟩⟩
  profile.check
  pure profile

/-- Data and parity shards of a segment together. -/
def totalShards (profile : Profile) : Nat := profile.layout.totalShards

/-- The number of segments of a content of `length` bytes. -/
def segmentCount (profile : Profile) (length : Nat) : Nat :=
  (length + profile.segmentSize.toNat - 1) / profile.segmentSize.toNat

/-- The codec of a profile, if the profile is accepted. -/
def codec (profile : Profile) : Except Error Codec := do
  profile.check
  ReedSolomon.codec profile.layout

end Profile

/-- How the segments of a source are hashed. -/
inductive Strategy
  /-- One after the other. -/
  | serial
  /-- By a pool of workers. -/
  | parallel
  deriving DecidableEq, Repr

/-- The name of a strategy. -/
def Strategy.name : Strategy → String
  | serial => "serial"
  | parallel => "parallel"

instance : ToString Strategy := ⟨Strategy.name⟩
instance : Inhabited Strategy := ⟨.parallel⟩

end ErasureDigest
