import ErasureDigest.Proofs.Hashing.History
import ErasureDigest.Proofs.Hashing.Serial

/-!
# Feeding a content chunk by chunk

`Hasher.feed` appends chunks in order, stops at the first error, and
finishes after the last. A hasher and a segmenter cut a content at the
same places, the one by what waits from chunk to chunk, the other by
filling each segment: feeding gives what the serial digest of the whole
content gives (`outcome_feed`), and the error of a rejected segment comes
from the call that completes it (`StopsAt`, `stopsAt_of_rejected`).
`feed_eq_serial` is both, for a hasher however it was used before.
-/

namespace ErasureDigest

namespace Hasher

/-- What feeding chunks came to. -/
structure Fed where
  outcome : Except Error Digest
  /-- The hasher after the last call. -/
  hasher : Hasher
  /-- How many chunks were taken before a call failed or the digest was
  asked for. -/
  taken : Nat

/-- Appends the chunks in order up to the first error, then finishes. -/
def feed (h : Hasher) : List Bytes → Fed
  | [] => ⟨h.finish.1, h.finish.2, 0⟩
  | chunk :: rest =>
    match h.append chunk with
    | (.error error, h') => ⟨.error error, h', 0⟩
    | (.ok (), h') =>
      let fed := feed h' rest
      { fed with taken := fed.taken + 1 }

variable {h h' : Hasher} {codec : Codec} {size : Nat} {error : Error}
variable {chunk bad : Bytes} {chunks before after : List Bytes} {sums : SegmentSums}

theorem feed_nil (h : Hasher) : h.feed [] = ⟨h.finish.1, h.finish.2, 0⟩ := rfl

theorem feed_of_error (chunks : List Bytes) (happend : h.append chunk = (.error error, h')) :
    h.feed (chunk :: chunks) = ⟨.error error, h', 0⟩ := by
  rw [feed, happend]

theorem feed_of_ok (chunks : List Bytes) (happend : h.append chunk = (.ok (), h')) :
    h.feed (chunk :: chunks) = { h'.feed chunks with taken := (h'.feed chunks).taken + 1 } := by
  rw [feed, happend]

/-- **The pieces do not see the chunks**: what a chunk completes is the
first piece of all that is to come, and the excess starts the next. -/
theorem pieces_completed (hsize : 0 < h.segmentSize) (hbuffer : h.buffer.length < h.segmentSize)
    (hfull : h.segmentSize ≤ h.buffer.length + chunk.length) (rest : Bytes) :
    Bytes.pieces h.segmentSize (h.buffer ++ (chunk ++ rest)) =
      h.completed chunk :: Bytes.pieces h.segmentSize (h.excess chunk ++ rest) := by
  rw [← List.append_assoc, ← completed_append_excess, List.append_assoc,
    Bytes.pieces_append hsize (length_completed hbuffer hfull)]

/-- **What feeding gives**: the digest of the columns with all pieces of
what waits and what comes, or the error of the first rejected one. -/
theorem outcome_feed (hfinished : h.finished = false) (hbuffer : h.buffer.length < h.segmentSize)
    (hchunks : ∀ chunk ∈ chunks, chunk.length ≤ h.segmentSize) :
    (h.feed chunks).outcome =
      (h.columns.collect h.codec
        (Bytes.pieces h.segmentSize (h.buffer ++ chunks.flatten))).map Columns.digest := by
  have hsize : 0 < h.segmentSize := by omega
  induction chunks generalizing h with
  | nil =>
    rw [feed_nil, List.flatten_nil, List.append_nil]
    by_cases hempty : h.buffer = []
    · rw [finish_of_empty hfinished hempty, hempty, Bytes.pieces_nil]
      rfl
    · rw [Bytes.pieces_of_length_le hsize hempty (Nat.le_of_lt hbuffer), Columns.collect]
      cases hs : h.codec.sums h.buffer with
      | error error => rw [finish_of_rejected hfinished hempty hs]; rfl
      | ok sums => rw [finish_of_accepted hfinished hempty hs]; rfl
  | cons chunk rest ih =>
    have hchunk := hchunks chunk List.mem_cons_self
    have hrest := fun other hother => hchunks other (List.mem_cons_of_mem chunk hother)
    rw [List.flatten_cons]
    rcases Nat.lt_or_ge (h.buffer.length + chunk.length) h.segmentSize with hshort | hfull
    · rw [feed_of_ok _ (append_of_short hfinished hchunk hbuffer hshort), ← List.append_assoc]
      exact ih (h := { h with buffer := h.buffer ++ chunk }) hfinished
        (by simpa using hshort) hrest hsize
    · rw [pieces_completed hsize hbuffer hfull, Columns.collect]
      cases hs : h.codec.sums (h.completed chunk) with
      | error error =>
        rw [feed_of_error _ (append_of_rejected hfinished hchunk hbuffer hfull hs)]
        rfl
      | ok sums =>
        rw [feed_of_ok _ (append_of_accepted hfinished hchunk hbuffer hfull hs)]
        exact ih (h := { h with
          columns := h.columns.push sums (h.completed chunk).length
          buffer := h.excess chunk }) hfinished (length_excess_lt hbuffer hchunk) hrest hsize

/-- A segment more in the columns counts. -/
theorem segmentCount_push (columns : Columns) (sums : SegmentSums) (length : Nat) :
    (columns.push sums length).segmentCount = columns.segmentCount + 1 := by
  simp [Columns.segmentCount, Columns.push]

/-! ## Where feeding stops -/

/-- **Where feeding stopped at a rejected piece**, given the pieces before
it: these are in the columns, and the failing call is the append whose
chunk reaches the end of the piece, or the finish where the piece is the
short rest. -/
structure StopsAt (h : Hasher) (chunks before : List Bytes) (bad : Bytes) : Prop where
  counted : (h.feed chunks).hasher.segmentCount = h.segmentCount + before.length
  full : bad.length = h.segmentSize →
    (h.feed chunks).taken < chunks.length ∧
    h.buffer.length + (chunks.take (h.feed chunks).taken).flatten.length <
      (before.length + 1) * h.segmentSize ∧
    (before.length + 1) * h.segmentSize ≤
      h.buffer.length + (chunks.take ((h.feed chunks).taken + 1)).flatten.length
  short : bad.length < h.segmentSize → (h.feed chunks).taken = chunks.length

namespace StopsAt

/-- The finish fails on what waits. -/
theorem of_finish (hfinished : h.finished = false) (hbuffer : h.buffer.length < h.segmentSize)
    (hne : h.buffer ≠ []) (hs : h.codec.sums h.buffer = .error error) :
    StopsAt h [] [] h.buffer := by
  have hfeed : h.feed [] = ⟨.error error, h, 0⟩ := by
    rw [feed_nil, finish_of_rejected hfinished hne hs]
  refine ⟨by rw [hfeed]; rfl, fun hlength => ?_, fun _ => by rw [hfeed]; rfl⟩
  exact absurd hlength (Nat.ne_of_lt hbuffer)

variable (hfinished : h.finished = false) (hchunk : chunk.length ≤ h.segmentSize)
  (hbuffer : h.buffer.length < h.segmentSize)
include hfinished hchunk hbuffer

/-- A chunk that only waits puts the stop off by one. -/
theorem of_short (hshort : h.buffer.length + chunk.length < h.segmentSize)
    (hstop : StopsAt { h with buffer := h.buffer ++ chunk } chunks before bad) :
    StopsAt h (chunk :: chunks) before bad := by
  obtain ⟨hcount, hfull, hrest⟩ := hstop
  have hfeed := feed_of_ok chunks (append_of_short hfinished hchunk hbuffer hshort)
  refine ⟨by rw [hfeed]; exact hcount, fun hlength => ?_, fun hlength => ?_⟩
  · obtain ⟨htaken, hlt, hle⟩ := hfull hlength
    simp only [List.length_append] at hlt hle
    simp only [hfeed, List.length_cons, List.take_succ_cons, List.flatten_cons, List.length_append]
    omega
  · rw [hfeed, List.length_cons]
    exact congrArg (· + 1) (hrest hlength)

/-- A chunk that completes the rejected piece is where it stops. -/
theorem of_rejected (hreach : h.segmentSize ≤ h.buffer.length + chunk.length)
    (hs : h.codec.sums (h.completed chunk) = .error error) :
    StopsAt h (chunk :: chunks) [] (h.completed chunk) := by
  have hfeed := feed_of_error chunks
    (append_of_rejected hfinished hchunk hbuffer hreach hs)
  refine ⟨by rw [hfeed]; rfl, fun _ => ?_, fun hlength => ?_⟩
  · simp only [hfeed, List.length_cons, List.take_zero, List.flatten_nil, List.length_nil,
      List.take_succ_cons, List.flatten_cons, List.length_append]
    omega
  · rw [length_completed hbuffer hreach] at hlength
    omega

/-- A chunk that completes an accepted piece puts the stop off by one, and
by that piece. -/
theorem of_accepted (hreach : h.segmentSize ≤ h.buffer.length + chunk.length)
    (hs : h.codec.sums (h.completed chunk) = .ok sums)
    (hstop : StopsAt { h with
      columns := h.columns.push sums (h.completed chunk).length
      buffer := h.excess chunk } chunks before bad) :
    StopsAt h (chunk :: chunks) (h.completed chunk :: before) bad := by
  obtain ⟨hcount, hfull, hrest⟩ := hstop
  have hfeed := feed_of_ok chunks
    (append_of_accepted hfinished hchunk hbuffer hreach hs)
  -- the bytes before the chunk and in it are the piece and the excess
  have hexcess : (h.excess chunk).length + h.segmentSize = h.buffer.length + chunk.length := by
    rw [excess, List.length_drop]
    omega
  refine ⟨?_, fun hlength => ?_, fun hlength => ?_⟩
  · simp only [segmentCount, segmentCount_push] at hcount
    simp only [hfeed, segmentCount, hcount, List.length_cons]
    omega
  · obtain ⟨htaken, hlt, hle⟩ := hfull hlength
    simp only [hfeed, List.length_cons, List.take_succ_cons, List.flatten_cons, List.length_append,
      Nat.succ_mul] at hlt hle ⊢
    omega
  · rw [hfeed, List.length_cons]
    exact congrArg (· + 1) (hrest hlength)

end StopsAt

/-- **Feeding stops at the first rejected piece** of what waits and what
comes. -/
theorem stopsAt_of_rejected (hfinished : h.finished = false)
    (hbuffer : h.buffer.length < h.segmentSize)
    (hchunks : ∀ chunk ∈ chunks, chunk.length ≤ h.segmentSize)
    (hpieces : Bytes.pieces h.segmentSize (h.buffer ++ chunks.flatten) = before ++ bad :: after)
    (hbefore : ∀ other ∈ before, h.codec.Accepts other) (hs : h.codec.sums bad = .error error) :
    StopsAt h chunks before bad := by
  have hsize : 0 < h.segmentSize := by omega
  induction chunks generalizing h before with
  | nil =>
    rw [List.flatten_nil, List.append_nil] at hpieces
    have hne : h.buffer ≠ [] := by
      intro hempty
      simp [hempty] at hpieces
    rw [Bytes.pieces_of_length_le hsize hne (Nat.le_of_lt hbuffer)] at hpieces
    rcases before with - | ⟨first, before⟩
    · obtain rfl : h.buffer = bad := (List.cons.inj hpieces).1
      exact .of_finish hfinished hbuffer hne hs
    · simp at hpieces
  | cons chunk rest ih =>
    have hchunk := hchunks chunk List.mem_cons_self
    have hrest := fun other hother => hchunks other (List.mem_cons_of_mem chunk hother)
    rw [List.flatten_cons] at hpieces
    rcases Nat.lt_or_ge (h.buffer.length + chunk.length) h.segmentSize with hshort | hreach
    · rw [← List.append_assoc] at hpieces
      refine .of_short hfinished hchunk hbuffer hshort ?_
      exact ih hfinished (by simpa using hshort) hrest hpieces hbefore hs hsize
    · rw [pieces_completed hsize hbuffer hreach] at hpieces
      rcases before with - | ⟨first, before⟩
      · -- the completed piece is the rejected one
        obtain rfl : h.completed chunk = bad := (List.cons.inj hpieces).1
        exact .of_rejected hfinished hchunk hbuffer hreach hs
      · -- it is an earlier, accepted one
        obtain ⟨rfl, hnext⟩ := List.cons.inj hpieces
        obtain ⟨sums, hfirst⟩ := hbefore _ List.mem_cons_self
        refine .of_accepted hfinished hchunk hbuffer hreach hfirst ?_
        exact ih hfinished (length_excess_lt hbuffer hchunk) hrest hnext
          (fun other hother => hbefore other (List.mem_cons_of_mem _ hother)) hs hsize

/-- **Feeding is hashing the whole content.** For a new hasher, or one
started again after any calls, and any chunks of at most a segment:
appending them and finishing gives what the serial digest of their
concatenation gives. Where a segment is rejected, its error comes from the
append whose chunk reaches the end of the segment, or from the finish
where the segment is the short last one, and the segments before it are
the ones hashed. -/
theorem feed_eq_serial (hsize : 0 < size) (hchunks : ∀ chunk ∈ chunks, chunk.length ≤ size) :
    ∃ fresh, new codec size = .ok fresh ∧
      ∀ h : Hasher, (h = fresh ∨ ∃ calls, h = (fresh.history calls).hasher.init) →
        (h.feed chunks).outcome = Serial.digest codec size (.ofBytes chunks.flatten) ∧
        ∀ before bad after error,
          Bytes.pieces size chunks.flatten = before ++ bad :: after →
          (∀ other ∈ before, codec.Accepts other) → codec.sums bad = .error error →
          (h.feed chunks).outcome = .error error ∧
          (h.feed chunks).hasher.segmentCount = before.length ∧
          (bad.length = size →
            (h.feed chunks).taken < chunks.length ∧
            (chunks.take (h.feed chunks).taken).flatten.length < (before.length + 1) * size ∧
            (before.length + 1) * size ≤
              (chunks.take ((h.feed chunks).taken + 1)).flatten.length) ∧
          (bad.length < size → (h.feed chunks).taken = chunks.length) := by
  refine ⟨start codec size, new_eq_ok hsize, fun h hfresh => ?_⟩
  obtain rfl : h = start codec size := by
    rcases hfresh with rfl | ⟨calls, rfl⟩
    · rfl
    · exact (tracks_history codec hsize calls).init_eq
  have hserial := Serial.digest_eq_outcome_of_delivers codec hsize
    (Source.delivers_ofBytes chunks.flatten)
  have hfeed := outcome_feed (h := start codec size) rfl hsize hchunks
  have houtcome : ((start codec size).feed chunks).outcome =
      Serial.digest codec size (.ofBytes chunks.flatten) := by
    rw [hserial, hfeed, Codec.outcome]
    simp only [start, List.nil_append, Bytes.segments]
    cases (Columns.empty codec.totalShards).collect codec (Bytes.pieces size chunks.flatten) <;> rfl
  refine ⟨houtcome, fun before bad after error hpieces hbefore hs => ?_⟩
  obtain ⟨hcount, hfull, hshort⟩ :=
    stopsAt_of_rejected (h := start codec size) rfl hsize hchunks hpieces hbefore hs
  refine ⟨?_, ?_, fun hlength => ?_, hshort⟩
  · rw [houtcome, hserial, Bytes.segments, hpieces, Codec.outcome_of_rejected hbefore hs]
  · simpa [segmentCount, start, Columns.segmentCount, Columns.empty] using hcount
  · simpa [start] using hfull hlength

/-- Three bytes in chunks across an empty one, the last segment rejected:
all chunks are taken and the finish fails with one segment hashed. -/
theorem feed_rejected_tail :
    (0 < 2 ∧ ∀ chunk ∈ ([[1], [], [2, 3]] : List Bytes), chunk.length ≤ 2) ∧
    ∃ fresh, new ((Codec.copying 1 1).refusing (·.contains 3) "no") 2 = .ok fresh ∧
      (fresh.feed [[1], [], [2, 3]]).outcome = .error (.encode (.refused "no")) ∧
      (fresh.feed [[1], [], [2, 3]]).hasher.segmentCount = 1 ∧
      (fresh.feed [[1], [], [2, 3]]).taken = 3 := by
  refine ⟨⟨by decide, by decide⟩, ?_⟩
  obtain ⟨fresh, hnew, hfeed⟩ :=
    @feed_eq_serial ((Codec.copying 1 1).refusing (·.contains 3) "no") 2 [[1], [], [2, 3]]
      (by decide) (by decide)
  refine ⟨fresh, hnew, ?_⟩
  have hpieces : Bytes.pieces 2 [1, 2, 3] = [[1, 2]] ++ [3] :: [] := by
    rw [show ([1, 2, 3] : Bytes) = [[1, 2]].flatten ++ [3] from rfl,
      pieces_of_waiting (by decide) (by simp) (by decide)]
    rfl
  obtain ⟨hout, hcount, -, htaken⟩ := (hfeed fresh (.inl rfl)).2 [[1, 2]] [3] []
    (.encode (.refused "no")) hpieces (by simpa using ⟨_, rfl⟩) rfl
  exact ⟨hout, hcount, htaken (by decide)⟩

end Hasher

end ErasureDigest
