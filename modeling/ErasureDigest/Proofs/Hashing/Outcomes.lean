import ErasureDigest.Proofs.Hashing.History

/-!
# What every call of a hasher gives

A hasher never waits with a whole segment (`length_buffer_lt`), so the
room it computes for a chunk is never cut off, the chunk reaches as far as
it is sliced, and the check for an overflowing buffer never fires. What is
left are three reasons for an append to fail and two for a finish, tried
in this order: a digest was given, the chunk is too long, the segment is
rejected (`Tracks.append_eq_error_iff`, `Tracks.finish_eq_error_iff`).
-/

namespace ErasureDigest

namespace Hasher

variable {h : Hasher} {codec : Codec} {size : Nat} {bytes chunk : Bytes} {finished : Bool}
variable {error : Error}

/-- **Less than a segment waits**, at any time. -/
theorem Tracks.length_buffer_lt (ht : Tracks codec size bytes finished h) (hsize : 0 < size) :
    h.buffer.length < size := by
  cases finished with
  | false =>
    obtain ⟨fronts, -, -, hbuffer, -⟩ := ht.waiting rfl
    exact hbuffer
  | true =>
    rw [(ht.given rfl).1]
    exact hsize

section Append

variable (ht : Tracks codec size bytes finished h) (hsize : 0 < size)
include ht hsize

/-- **Why an append fails**, the reasons in the order they are tried. -/
theorem Tracks.append_eq_error_iff :
    (h.append chunk).1 = .error error ↔
      (finished = true ∧ error = .finished) ∨
      (finished = false ∧ size < chunk.length ∧ error = .inputTooLarge chunk.length size) ∨
      (finished = false ∧ chunk.length ≤ size ∧ size ≤ h.buffer.length + chunk.length ∧
        codec.sums ((h.buffer ++ chunk).take size) = .error error) := by
  have hbuffer := ht.length_buffer_lt hsize
  obtain ⟨rfl, rfl, rfl, -, -⟩ := ht
  by_cases hfinished : h.finished = true
  · rw [append_of_finished hfinished]
    simp [hfinished, eq_comm]
  rw [Bool.not_eq_true] at hfinished
  rcases Nat.lt_or_ge h.segmentSize chunk.length with hlong | hchunk
  · rw [append_of_long hfinished hlong]
    simp [hfinished, hlong, Nat.not_le.2 hlong, eq_comm]
  rcases Nat.lt_or_ge (h.buffer.length + chunk.length) h.segmentSize with hshort | hfull
  · rw [append_of_short hfinished hchunk hbuffer hshort]
    simp [hfinished, Nat.not_lt.2 hchunk, Nat.not_le.2 hshort]
  rw [← completed_eq_take hbuffer]
  cases hs : h.codec.sums (h.completed chunk) with
  | error other =>
    rw [append_of_rejected hfinished hchunk hbuffer hfull hs]
    simp [hfinished, hchunk, hfull, Nat.not_lt.2 hchunk]
  | ok sums =>
    rw [append_of_accepted hfinished hchunk hbuffer hfull hs]
    simp [hfinished, Nat.not_lt.2 hchunk]

/-- **When an append is taken**: where it completes no segment, or one that
gets checksums. -/
theorem Tracks.append_eq_ok_iff :
    (h.append chunk).1 = .ok () ↔
      finished = false ∧ chunk.length ≤ size ∧
        (size ≤ h.buffer.length + chunk.length →
          codec.Accepts ((h.buffer ++ chunk).take size)) := by
  have hbuffer := ht.length_buffer_lt hsize
  obtain ⟨rfl, rfl, rfl, -, -⟩ := ht
  rw [← completed_eq_take hbuffer]
  constructor
  · intro hok
    rcases append_cases h chunk with
      ⟨error, heq⟩ | ⟨hfinished, hchunk, -, ⟨hshort, -⟩ | ⟨-, sums, hs, -⟩⟩
    · simp [heq] at hok
    · exact ⟨hfinished, hchunk, fun hfull => absurd hshort (Nat.not_lt.2 hfull)⟩
    · exact ⟨hfinished, hchunk, fun _ => ⟨sums, hs⟩⟩
  · rintro ⟨hfinished, hchunk, haccepts⟩
    rcases Nat.lt_or_ge (h.buffer.length + chunk.length) h.segmentSize with hshort | hfull
    · rw [append_of_short hfinished hchunk hbuffer hshort]
    · obtain ⟨sums, hs⟩ := haccepts hfull
      rw [append_of_accepted hfinished hchunk hbuffer hfull hs]

/-- **No buffer overflows**: only a codec that rejects a segment with the
words for it brings them about. -/
theorem Tracks.append_ne_bufferOverflow {buffered max : Nat}
    (hcodec : ∀ segment, codec.sums segment ≠ .error (.bufferOverflow buffered max)) :
    (h.append chunk).1 ≠ .error (.bufferOverflow buffered max) := by
  intro happend
  rcases (ht.append_eq_error_iff hsize).1 happend with
    ⟨-, herror⟩ | ⟨-, -, herror⟩ | ⟨-, -, -, hs⟩
  · cases herror
  · cases herror
  · exact hcodec _ hs

end Append

section Finish

variable (ht : Tracks codec size bytes finished h)
include ht

/-- **Why a finish fails.** -/
theorem Tracks.finish_eq_error_iff :
    h.finish.1 = .error error ↔
      (finished = true ∧ error = .finished) ∨
      (finished = false ∧ h.buffer ≠ [] ∧ codec.sums h.buffer = .error error) := by
  obtain ⟨rfl, rfl, rfl, -, -⟩ := ht
  by_cases hfinished : h.finished = true
  · rw [finish_of_finished hfinished]
    simp [hfinished, eq_comm]
  rw [Bool.not_eq_true] at hfinished
  by_cases hempty : h.buffer = []
  · rw [finish_of_empty hfinished hempty]
    simp [hfinished, hempty]
  cases hs : h.codec.sums h.buffer with
  | error other =>
    rw [finish_of_rejected hfinished hempty hs]
    simp [hfinished, hempty]
  | ok sums =>
    rw [finish_of_accepted hfinished hempty hs]
    simp [hfinished]

/-- **When a finish gives a digest**: where nothing waits, or a segment that
gets checksums. The digest has a root for the segments and one for each
shard position, and counts all bytes accepted. -/
theorem Tracks.exists_finish_eq_ok (hsize : 0 < size) (hfinished : finished = false)
    (haccepts : h.buffer ≠ [] → codec.Accepts h.buffer) :
    ∃ d, h.finish.1 = .ok d ∧ d.roots.length = codec.totalShards + 1 ∧
      d.contentLength = UInt64.ofNat bytes.length := by
  cases hfinish : h.finish.1 with
  | error error =>
    rcases ht.finish_eq_error_iff.1 hfinish with ⟨hgiven, -⟩ | ⟨-, hbuffer, hs⟩
    · rw [hfinished] at hgiven
      cases hgiven
    · obtain ⟨sums, hok⟩ := haccepts hbuffer
      rw [hs] at hok
      cases hok
  | ok d =>
    have hcollect := ht.collect_of_finish hsize hfinish
    have hwidth := Columns.length_shards_of_collect_empty hcollect
    have hlength := Columns.contentLength_of_collect hcollect
    rw [Bytes.flatten_pieces] at hlength
    refine ⟨d, rfl, ?_⟩
    rw [digest_of_finish hfinish]
    exact ⟨by simp [Columns.digest, hwidth], by simp [Columns.digest, hlength, Columns.empty]⟩

end Finish

/-- **What every call gives, after any calls.** Let `given` say whether a
digest was given since the last start. An append fails exactly in three
cases: after a digest; else with a chunk longer than a segment; else where
what waits and the chunk make a whole segment and its first bytes are
rejected, with the error of that segment. It is taken otherwise. The buffer
is never found full, so an overflow is reported only by a codec that calls
its own rejections so: less than a segment waits, the room for the chunk is
what is missing of one, and the chunk is cut within its bounds. A finish
fails exactly after a digest, or else where something waits and is rejected,
which leaves the hasher as it was, to be called again; otherwise it gives
all roots and the number of accepted bytes. -/
theorem outcome_of_every_call (hsize : 0 < size) :
    ∃ fresh, new codec size = .ok fresh ∧ ∀ calls : List Call,
      let h := (fresh.history calls).hasher
      let given := hasFinished (fresh.history calls).log
      (∀ chunk, let room := size - h.buffer.length
        (∀ error, (h.append chunk).1 = .error error ↔
          (given = true ∧ error = .finished) ∨
          (given = false ∧ size < chunk.length ∧ error = .inputTooLarge chunk.length size) ∨
          (given = false ∧ chunk.length ≤ size ∧ size ≤ h.buffer.length + chunk.length ∧
            codec.sums ((h.buffer ++ chunk).take size) = .error error)) ∧
        ((h.append chunk).1 = .ok () ↔ given = false ∧ chunk.length ≤ size ∧
          (size ≤ h.buffer.length + chunk.length →
            codec.Accepts ((h.buffer ++ chunk).take size))) ∧
        (∀ buffered max,
          (∀ segment, codec.sums segment ≠ .error (.bufferOverflow buffered max)) →
            (h.append chunk).1 ≠ .error (.bufferOverflow buffered max)) ∧
        h.buffer.length < size ∧ h.buffer.length + room = size ∧
        (size ≤ h.buffer.length + chunk.length → (chunk.take room).length = room ∧
          room + (chunk.drop room).length = chunk.length)) ∧
      (∀ error, h.finish.1 = .error error ↔
        (given = true ∧ error = .finished) ∨
        (given = false ∧ h.buffer ≠ [] ∧ codec.sums h.buffer = .error error)) ∧
      (∀ error, h.finish.1 = .error error → h.finish.2 = h ∧ h.finished = given) ∧
      (given = false → (h.buffer ≠ [] → codec.Accepts h.buffer) →
        ∃ d, h.finish.1 = .ok d ∧ d.roots.length = codec.totalShards + 1 ∧
          d.contentLength = UInt64.ofNat (accepted (fresh.history calls).log).length) := by
  refine ⟨start codec size, new_eq_ok hsize, fun calls => ?_⟩
  have ht := tracks_history codec hsize calls
  have hbuffer := ht.length_buffer_lt hsize
  refine ⟨fun chunk => ⟨fun error => ht.append_eq_error_iff hsize, ht.append_eq_ok_iff hsize,
    fun buffered max => ht.append_ne_bufferOverflow hsize, hbuffer, by omega, fun hfull => ?_⟩,
    fun error => ht.finish_eq_error_iff, fun error hfail => ⟨finish_of_error hfail, ht.finished_eq⟩,
    ht.exists_finish_eq_ok hsize⟩
  rw [List.length_take, List.length_drop]
  omega

/-- A codec that refuses the byte 33, segments of two bytes: the refused
chunk does not stay, so a finish hashes what waited before it. -/
theorem outcomes_after_rejected_segment : 0 < 2 ∧
    ∃ fresh, new ((Codec.copying 1 1).refusing (·.contains 33) "no") 2 = .ok fresh ∧
      let h := (fresh.history [.append [1], .append [33]]).hasher
      (h.append [2, 3, 4]).1 = .error (.inputTooLarge 3 2) ∧
      (h.append [33]).1 = .error (.encode (.refused "no")) ∧
      (∃ d, h.finish.1 = .ok d ∧ d.roots.length = 2 ∧ d.contentLength = 1) ∧
      ((fresh.history [.append [1], .finish]).hasher.append [2, 3, 4]).1 =
        .error .finished := by
  refine ⟨by decide, ?_⟩
  obtain ⟨fresh, hnew, houtcome⟩ := @outcome_of_every_call
    ((Codec.copying 1 1).refusing (·.contains 33) "no") 2 (by decide)
  obtain rfl : start _ _ = fresh := Except.ok.inj ((new_eq_ok (by decide)).symm.trans hnew)
  refine ⟨_, hnew, ?_⟩
  obtain ⟨happend, -, -, hgives⟩ := houtcome [.append [1], .append [33]]
  refine ⟨((happend [2, 3, 4]).1 _).2 (Or.inr (Or.inl ⟨rfl, by decide, rfl⟩)),
    ((happend [33]).1 _).2 (Or.inr (Or.inr ⟨rfl, by decide, by decide, rfl⟩)), ?_, ?_⟩
  · exact hgives rfl fun _ => ⟨_, rfl⟩
  · exact (((houtcome [.append [1], .finish]).1 [2, 3, 4]).1 _).2 (Or.inl ⟨rfl, rfl⟩)

end Hasher

end ErasureDigest
