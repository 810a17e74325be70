import ErasureDigest.Digest.Columns
import ErasureDigest.Stream.Segmenter

/-!
# Hashing in order

The plain way to digest a source: read a segment, hash it, add its
checksums to the columns, and so on to the end. The first failure, of the
source or of the codec, ends it, and what was not read by then is left in the
source. What the other ways of hashing give is measured against this one.
-/

namespace ErasureDigest

/-- What a computation came to, and what it left of its source. -/
structure Spent where
  outcome : Except Error Digest
  rest : Source

namespace Serial

/-- Adds all segments still to come to the columns. Gives the segmenter as it
is afterwards, also when that fails. -/
def absorb (codec : Codec) (columns : Columns) (s : Segmenter) :
    Except Error Columns × Segmenter :=
  match _h : s.next with
  | (none, s') => (.ok columns, s')
  | (some (.error error), s') => (.error error, s')
  | (some (.ok segment), s') =>
    match codec.sums segment.bytes with
    | .error error => (.error error, s')
    | .ok sums => absorb codec (columns.push sums segment.bytes.length) s'
termination_by s.weight
decreasing_by exact Segmenter.weight_lt_of_next ‹_›

/-- Digests a source, cut into segments of `segmentSize` bytes. -/
def spend (codec : Codec) (segmentSize : Nat) (source : Source) : Spent :=
  match checkSegmentSize segmentSize with
  | .error error => ⟨.error error, source⟩
  | .ok () =>
    let (columns, s) := absorb codec (.empty codec.totalShards) (.start source segmentSize)
    ⟨columns.map Columns.digest, s.source⟩

/-- The digest of a source, cut into segments of `segmentSize` bytes. -/
def digest (codec : Codec) (segmentSize : Nat) (source : Source) : Except Error Digest :=
  (spend codec segmentSize source).outcome

end Serial

end ErasureDigest
