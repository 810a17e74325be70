import ErasureDigest.Stream.Source

/-!
# Cutting a source into segments

A segmenter gives the segments of a source one by one, numbered from
zero. Each is filled before it is given, so a segment is short only where
the source paused or ended. A segment without bytes ends the stream for
good, and so does a failure, after it was reported once.
-/

namespace ErasureDigest

/-- A segment and its position in the stream. -/
structure Segment where
  id : Nat
  bytes : Bytes
  deriving DecidableEq, Repr

/-- A source being cut into segments of one size. -/
structure Segmenter where
  source : Source
  /-- Bytes per segment. -/
  size : Nat
  /-- How many segments have been given. -/
  segmentsRead : Nat
  /-- How many bytes have been given. -/
  bytesRead : Nat
  /-- Whether the stream has ended. -/
  ended : Bool
  deriving DecidableEq, Repr

/-- Refuses a segment size of zero, which would make any content empty. -/
def checkSegmentSize (size : Nat) : Except Error Unit :=
  if size = 0 then .error (.configuration .zeroSegmentSize) else .ok ()

theorem checkSegmentSize_of_pos {size : Nat} (h : 0 < size) : checkSegmentSize size = .ok () :=
  if_neg (Nat.ne_of_gt h)

namespace Segmenter

/-- A segmenter at the start of a source. -/
def start (source : Source) (size : Nat) : Segmenter :=
  ⟨source, size, 0, 0, false⟩

/-- The next segment or failure, or nothing when the stream has ended. -/
def next (s : Segmenter) : Option (Except Error Segment) × Segmenter :=
  if s.ended then (none, s)
  else
    let filled := Source.fill s.size s.source
    match filled.bytes with
    | .error fault =>
      (some (.error (.sourceRead fault)), { s with source := filled.rest, ended := true })
    | .ok [] => (none, { s with source := filled.rest, ended := true })
    | .ok bytes =>
      (some (.ok ⟨s.segmentsRead, bytes⟩),
        { s with
          source := filled.rest
          segmentsRead := s.segmentsRead + 1
          bytesRead := s.bytesRead + bytes.length })

/-- How much the segmenter can still give. -/
def weight (s : Segmenter) : Nat := s.source.weight

/-- A segment given leaves less to give. -/
theorem weight_lt_of_next {s s' : Segmenter} {segment : Segment}
    (h : s.next = (some (.ok segment), s')) : s'.weight < s.weight := by
  unfold next at h
  split at h
  · simp at h
  · revert h
    cases hf : (Source.fill s.size s.source).bytes with
    | error fault => simp [hf]
    | ok bytes =>
      cases bytes with
      | nil => simp [hf]
      | cons b rest =>
        simp only [hf, Prod.mk.injEq, Option.some.injEq, Except.ok.injEq]
        rintro ⟨-, rfl⟩
        exact Source.weight_rest_fill_lt hf (by simp)

/-- All segments to come, and the failure that ends them, if one does. -/
def drain (s : Segmenter) : List Segment × Option Error :=
  match _h : s.next with
  | (some (.ok segment), s') =>
    let (segments, failure) := drain s'
    (segment :: segments, failure)
  | (some (.error error), _) => ([], some error)
  | (none, _) => ([], none)
termination_by s.weight
decreasing_by exact weight_lt_of_next ‹_›

end Segmenter

end ErasureDigest
