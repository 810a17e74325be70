import ErasureDigest.Digest.Record
import ErasureDigest.Digest.SegmentSums

/-!
# Columns of checksums

A computation collects the checksums of its segments in order: one column
for the segments, one for each shard position. The digest is the root of
each column, the segments' first.
-/

namespace ErasureDigest

/-- The checksums of the segments so far, by column. -/
structure Columns where
  segments : Array Checksum
  /-- One column per shard position. -/
  shards : List (Array Checksum)
  /-- The bytes of the segments so far. -/
  contentLength : Nat
  deriving DecidableEq

namespace Columns

/-- No segments yet, for a number of shard positions. -/
def empty (totalShards : Nat) : Columns :=
  ⟨#[], List.replicate totalShards #[], 0⟩

/-- Adds one checksum to each column; columns that none is left for stay as
they are. -/
def pushEach : (columns : List (Array Checksum)) → (sums : List Checksum) →
    List (Array Checksum)
  | column :: columns, sum :: sums => column.push sum :: pushEach columns sums
  | columns, _ => columns

@[simp] theorem length_pushEach (columns : List (Array Checksum)) (sums : List Checksum) :
    (pushEach columns sums).length = columns.length := by
  fun_induction pushEach columns sums with
  | case1 column columns sum sums ih => rw [List.length_cons, ih, List.length_cons]
  | case2 columns sums => rfl

theorem getElem?_pushEach (columns : List (Array Checksum)) (sums : List Checksum)
    (position : Nat) :
    (pushEach columns sums)[position]? =
      columns[position]?.map fun column => sums[position]?.elim column column.push := by
  induction columns generalizing sums position with
  | nil => cases sums <;> rfl
  | cons column columns ih =>
    cases sums with
    | nil => simp [pushEach]
    | cons sum sums =>
      cases position with
      | zero => rfl
      | succ position => simpa [pushEach] using ih sums position

/-- Adds the next segment's checksums and length. -/
def push (columns : Columns) (sums : SegmentSums) (length : Nat) : Columns :=
  ⟨columns.segments.push sums.segment, pushEach columns.shards sums.shards,
    columns.contentLength + length⟩

/-- The number of segments so far. -/
def segmentCount (columns : Columns) : Nat := columns.segments.size

/-- The number of shard positions. -/
def totalShards (columns : Columns) : Nat := columns.shards.length

/-- The column of a shard position. -/
def shard? (columns : Columns) (position : Nat) : Option (List Checksum) :=
  columns.shards[position]?.map (·.toList)

/-- The root of every column. -/
def digest (columns : Columns) : Digest where
  roots := Checksum.root columns.segments.toList ::
    columns.shards.map fun column => Checksum.root column.toList
  contentLength := UInt64.ofNat columns.contentLength
  redundancy := .erasureCoded

end Columns

end ErasureDigest
