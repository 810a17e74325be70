import ErasureDigest.Hashing.Hasher
import ErasureDigest.Proofs.Digest.Collection

/-!
# The calls of a hasher

What `append` and `finish` do, one lemma per way they can go. A chunk
that stays below a segment only waits; one that completes a segment is
cut at `segmentSize`, and the segment is hashed or refused as the codec
says. `append_cases` and `finish_cases` collect them. No call that fails
changes the hasher (`append_of_error`, `finish_of_error`): the bytes that
`append` had put into the buffer before hashing failed come off again.
-/

namespace ErasureDigest

namespace Hasher

variable {h : Hasher} {chunk : Bytes} {sums : SegmentSums} {error : Error}
variable {codec : Codec} {size : Nat}

/-- A new hasher is one that has taken nothing. -/
theorem new_eq_ok (hsize : 0 < size) : new codec size = .ok (start codec size) := by
  rw [new, checkSegmentSize_of_pos hsize]
  rfl

/-! ## Hashing what waits -/

theorem hashBuffer_of_error (hs : h.codec.sums h.buffer = .error error) :
    h.hashBuffer = (.error error, h) := by
  rw [hashBuffer, hs]

theorem hashBuffer_of_ok (hs : h.codec.sums h.buffer = .ok sums) :
    h.hashBuffer =
      (.ok (), { h with columns := h.columns.push sums h.buffer.length, buffer := [] }) := by
  rw [hashBuffer, hs]

/-! ## Appending -/

/-- After a digest no chunk is taken. -/
theorem append_of_finished (hfinished : h.finished = true) (chunk : Bytes) :
    h.append chunk = (.error .finished, h) := by
  rw [append, if_pos hfinished]

/-- And none that is longer than a segment. -/
theorem append_of_long (hfinished : h.finished = false) (hlong : h.segmentSize < chunk.length) :
    h.append chunk = (.error (.inputTooLarge chunk.length h.segmentSize), h) := by
  rw [append, if_neg (by simp [hfinished]), if_pos hlong]

section Append

/-- The segment that a chunk completes: what waits and the front of the
chunk. -/
def completed (h : Hasher) (chunk : Bytes) : Bytes :=
  h.buffer ++ chunk.take (h.segmentSize - h.buffer.length)

/-- What is left of a chunk that completes a segment. -/
def excess (h : Hasher) (chunk : Bytes) : Bytes :=
  chunk.drop (h.segmentSize - h.buffer.length)

/-- Nothing is lost at the cut. -/
theorem completed_append_excess (h : Hasher) (chunk : Bytes) :
    h.completed chunk ++ h.excess chunk = h.buffer ++ chunk := by
  rw [completed, excess, List.append_assoc, List.take_append_drop]

/-- The cut is at the end of a segment. -/
theorem length_completed (hbuffer : h.buffer.length < h.segmentSize)
    (hfull : h.segmentSize ≤ h.buffer.length + chunk.length) :
    (h.completed chunk).length = h.segmentSize := by
  rw [completed, List.length_append, List.length_take]
  omega

/-- So the segment is the first bytes of what waits and what comes. -/
theorem completed_eq_take (hbuffer : h.buffer.length < h.segmentSize) (chunk : Bytes) :
    h.completed chunk = (h.buffer ++ chunk).take h.segmentSize := by
  rw [completed, List.take_append, List.take_of_length_le (Nat.le_of_lt hbuffer)]

/-- And what is left of the chunk does not make another. -/
theorem length_excess_lt (hbuffer : h.buffer.length < h.segmentSize)
    (hchunk : chunk.length ≤ h.segmentSize) : (h.excess chunk).length < h.segmentSize := by
  rw [excess, List.length_drop]
  omega

variable (hfinished : h.finished = false) (hchunk : chunk.length ≤ h.segmentSize)
  (hbuffer : h.buffer.length < h.segmentSize)
include hfinished hchunk hbuffer

/-- A chunk that completes nothing waits. -/
theorem append_of_short (hshort : h.buffer.length + chunk.length < h.segmentSize) :
    h.append chunk = (.ok (), { h with buffer := h.buffer ++ chunk }) := by
  have hneeded : chunk.length < h.segmentSize - h.buffer.length := by omega
  simp [append, hfinished, Nat.not_lt.2 hchunk, Nat.not_le.2 hbuffer, hneeded]

/-- A chunk that completes a segment has it hashed. -/
theorem append_of_full (hfull : h.segmentSize ≤ h.buffer.length + chunk.length) :
    h.append chunk =
      match { h with buffer := h.completed chunk }.hashBuffer with
      | (.error error, failed) =>
        (.error error, { failed with buffer := failed.buffer.take h.buffer.length })
      | (.ok (), hashed) =>
        (.ok (), { hashed with buffer := hashed.buffer ++ h.excess chunk }) := by
  rw [append, if_neg (by simp [hfinished]), if_neg (Nat.not_lt.2 hchunk),
    if_neg (Nat.not_le.2 hbuffer)]
  exact if_neg (by omega)

/-- A refused segment leaves the hasher as it was: the front of the chunk
comes off the buffer again. -/
theorem append_of_rejected (hfull : h.segmentSize ≤ h.buffer.length + chunk.length)
    (hs : h.codec.sums (h.completed chunk) = .error error) :
    h.append chunk = (.error error, h) := by
  rw [append_of_full hfinished hchunk hbuffer hfull, hashBuffer_of_error hs]
  simp [completed]

/-- An accepted segment goes into the columns, and the excess waits. -/
theorem append_of_accepted (hfull : h.segmentSize ≤ h.buffer.length + chunk.length)
    (hs : h.codec.sums (h.completed chunk) = .ok sums) :
    h.append chunk = (.ok (), { h with
      columns := h.columns.push sums (h.completed chunk).length
      buffer := h.excess chunk }) := by
  rw [append_of_full hfinished hchunk hbuffer hfull, hashBuffer_of_ok hs]
  simp

end Append

/-- **All that an append can do**: fail and change nothing, or keep the
chunk waiting, or hash the segment that the chunk completes. -/
theorem append_cases (h : Hasher) (chunk : Bytes) :
    (∃ error, h.append chunk = (.error error, h)) ∨
    (h.finished = false ∧ chunk.length ≤ h.segmentSize ∧ h.buffer.length < h.segmentSize ∧
      ((h.buffer.length + chunk.length < h.segmentSize ∧
          h.append chunk = (.ok (), { h with buffer := h.buffer ++ chunk })) ∨
        (h.segmentSize ≤ h.buffer.length + chunk.length ∧
          ∃ sums, h.codec.sums (h.completed chunk) = .ok sums ∧
            h.append chunk = (.ok (), { h with
              columns := h.columns.push sums (h.completed chunk).length
              buffer := h.excess chunk })))) := by
  by_cases hfinished : h.finished = true
  · exact Or.inl ⟨.finished, append_of_finished hfinished chunk⟩
  rw [Bool.not_eq_true] at hfinished
  rcases Nat.lt_or_ge h.segmentSize chunk.length with hchunk | hchunk
  · exact Or.inl ⟨_, append_of_long hfinished hchunk⟩
  by_cases hbuffer : h.segmentSize ≤ h.buffer.length
  · exact Or.inl ⟨_, by rw [append, if_neg (by simp [hfinished]), if_neg (Nat.not_lt.2 hchunk),
      if_pos hbuffer]⟩
  rw [Nat.not_le] at hbuffer
  rcases Nat.lt_or_ge (h.buffer.length + chunk.length) h.segmentSize with hshort | hfull
  · exact Or.inr ⟨hfinished, hchunk, hbuffer,
      Or.inl ⟨hshort, append_of_short hfinished hchunk hbuffer hshort⟩⟩
  cases hs : h.codec.sums (h.completed chunk) with
  | error error =>
    exact Or.inl ⟨error, append_of_rejected hfinished hchunk hbuffer hfull hs⟩
  | ok sums =>
    exact Or.inr ⟨hfinished, hchunk, hbuffer,
      Or.inr ⟨hfull, sums, rfl, append_of_accepted hfinished hchunk hbuffer hfull hs⟩⟩

/-- **An append that fails changes nothing.** -/
theorem append_of_error (hfail : (h.append chunk).1 = .error error) : (h.append chunk).2 = h := by
  rcases append_cases h chunk with ⟨other, heq⟩ | ⟨-, -, -, ⟨-, heq⟩ | ⟨-, sums, -, heq⟩⟩
  · rw [heq]
  · simp [heq] at hfail
  · simp [heq] at hfail

/-! ## Finishing -/

/-- After a digest none is given. -/
theorem finish_of_finished (hfinished : h.finished = true) : h.finish = (.error .finished, h) := by
  rw [finish, if_pos hfinished]

section Finish

variable (hfinished : h.finished = false)
include hfinished

/-- With nothing waiting the digest is that of the columns. -/
theorem finish_of_empty (hbuffer : h.buffer = []) :
    h.finish = (.ok h.columns.digest, { h with finished := true }) := by
  simp [finish, hfinished, hbuffer]

/-- A refused last segment leaves the hasher as it was. -/
theorem finish_of_rejected (hbuffer : h.buffer ≠ [])
    (hs : h.codec.sums h.buffer = .error error) : h.finish = (.error error, h) := by
  simp [finish, hfinished, hbuffer, hashBuffer_of_error hs]

/-- An accepted one goes into the columns first. -/
theorem finish_of_accepted (hbuffer : h.buffer ≠ []) (hs : h.codec.sums h.buffer = .ok sums) :
    h.finish = (.ok (h.columns.push sums h.buffer.length).digest,
      { h with
        columns := h.columns.push sums h.buffer.length
        buffer := []
        finished := true }) := by
  simp [finish, hfinished, hbuffer, hashBuffer_of_ok hs]

end Finish

/-- **All that a finish can do**: fail and change nothing, or give the
digest of the columns, after the last segment went into them. -/
theorem finish_cases (h : Hasher) :
    (∃ error, h.finish = (.error error, h)) ∨
    (h.finished = false ∧
      ((h.buffer = [] ∧ h.finish = (.ok h.columns.digest, { h with finished := true })) ∨
        (h.buffer ≠ [] ∧ ∃ sums, h.codec.sums h.buffer = .ok sums ∧
          h.finish = (.ok (h.columns.push sums h.buffer.length).digest, { h with
            columns := h.columns.push sums h.buffer.length
            buffer := []
            finished := true })))) := by
  by_cases hfinished : h.finished = true
  · exact Or.inl ⟨.finished, finish_of_finished hfinished⟩
  rw [Bool.not_eq_true] at hfinished
  by_cases hbuffer : h.buffer = []
  · exact Or.inr ⟨hfinished, Or.inl ⟨hbuffer, finish_of_empty hfinished hbuffer⟩⟩
  cases hs : h.codec.sums h.buffer with
  | error error => exact Or.inl ⟨error, finish_of_rejected hfinished hbuffer hs⟩
  | ok sums =>
    exact Or.inr ⟨hfinished, Or.inr ⟨hbuffer, sums, rfl, finish_of_accepted hfinished hbuffer hs⟩⟩

/-- **A finish that fails changes nothing.** -/
theorem finish_of_error (hfail : h.finish.1 = .error error) : h.finish.2 = h := by
  rcases finish_cases h with ⟨other, heq⟩ | ⟨-, ⟨-, heq⟩ | ⟨-, sums, -, heq⟩⟩
  · rw [heq]
  · simp [heq] at hfail
  · simp [heq] at hfail

/-- What a hasher gives is the digest of the columns it then holds. -/
theorem digest_of_finish {d : Digest} (hfinish : h.finish.1 = .ok d) :
    d = h.finish.2.columns.digest := by
  rcases finish_cases h with ⟨error, heq⟩ | ⟨-, ⟨-, heq⟩ | ⟨-, sums, -, heq⟩⟩
  · simp [heq] at hfinish
  · rw [heq] at hfinish ⊢
    exact (Except.ok.inj hfinish).symm
  · rw [heq] at hfinish ⊢
    exact (Except.ok.inj hfinish).symm

end Hasher

end ErasureDigest
