import ErasureDigest.Hashing.Content
import ErasureDigest.Proofs.Hashing.Serial
import ErasureDigest.Proofs.Pool.Results

/-!
# What a computation takes from its source

A computation gives its outcome with what it leaves of the source. A profile
that is refused leaves the source untouched (`Profile.spend_of_check`), and a
digest of a source that delivers its content leaves none of it
(`Profile.delivers_rest_spend`).

A segmenter that has ended stays ended, so what it is still to be given is
a property of its own: `Segmenter.Owes` holds of a segmenter whose source
still delivers some content, and nothing once it has ended.
-/

namespace ErasureDigest

/-! ## What a segmenter is still owed -/

namespace Segmenter

variable {s s' : Segmenter} {content : Bytes} {segment : Segment} {error : Error}

/-- The source has no fault to come, and nothing more after the end. -/
def Owes (s : Segmenter) : Prop :=
  ∃ content : Bytes, s.source.Delivers content none ∧ (s.ended = true → content = [])

theorem owes_start {source : Source} (h : source.Delivers content none) (size : Nat) :
    (start source size).Owes :=
  ⟨content, h, nofun⟩

/-- What is read comes off what is owed. -/
theorem Owes.next (h : s.Owes) (hsize : 0 < s.size) : s.next.2.Owes ∧ s.next.2.size = s.size := by
  obtain ⟨content, hdelivers, hempty⟩ := h
  by_cases hended : s.ended = true
  · have hnext : s.next = (none, s) := by rw [Segmenter.next, if_pos hended]
    rw [hnext]
    exact ⟨⟨content, hdelivers, hempty⟩, rfl⟩
  rw [Bool.not_eq_true] at hended
  rcases Nat.lt_or_ge content.length s.size with hlt | hle
  · -- the source comes to its end, with a short segment or with none
    obtain ⟨rest, hfill, hrest⟩ := Source.fill_of_lt hdelivers hlt
    have hnothing : rest.Delivers [] none := hrest rfl
    cases content with
    | nil =>
      have hnext : s.next = (none, { s with source := rest, ended := true }) := by
        simp [Segmenter.next, hended, hfill]
      rw [hnext]
      exact ⟨⟨[], hnothing, fun _ => rfl⟩, rfl⟩
    | cons b bytes =>
      obtain ⟨s', hnext, hsource, hsize', -⟩ := next_of_fill hended hfill (by simp)
      rw [hnext]
      exact ⟨⟨[], by rw [hsource]; exact hnothing, fun _ => rfl⟩, hsize'⟩
  · obtain ⟨rest, hfill, hrest⟩ := Source.fill_of_le hdelivers hle
    have hne : content.take s.size ≠ [] := by
      rw [← List.length_pos_iff, List.length_take_of_le hle]
      exact hsize
    obtain ⟨s', hnext, hsource, hsize', hended'⟩ := next_of_fill hended hfill hne
    rw [hnext]
    refine ⟨⟨content.drop s.size, by rw [hsource]; exact hrest, fun h => ?_⟩, hsize'⟩
    rw [hended'] at h
    simp at h

end Segmenter

/-! ## In order -/

namespace Serial

variable {codec : Codec} {columns columns' : Columns} {s : Segmenter}

/-- **Columns of all segments leave nothing owed.** -/
theorem delivers_of_absorb (hs : s.Owes) (hsize : 0 < s.size)
    (h : (absorb codec columns s).1 = .ok columns') :
    (absorb codec columns s).2.source.Delivers [] none := by
  fun_induction absorb codec columns s with
  | case1 columns s s' hnext =>
    obtain ⟨howes, -⟩ := hs.next hsize
    rw [hnext] at howes
    obtain ⟨content, hdelivers, hempty⟩ := howes
    exact hempty (Segmenter.ended_of_next hnext (by simp)) ▸ hdelivers
  | case2 columns s error s' hnext => simp at h
  | case3 columns s segment s' hnext error hsums => simp at h
  | case4 columns s segment s' hnext sums hsums ih =>
    obtain ⟨howes, hsize'⟩ := hs.next hsize
    rw [hnext] at howes hsize'
    simp only at howes hsize'
    exact ih howes (by omega) h

/-- **A digest leaves nothing owed.** -/
theorem delivers_rest_spend {source : Source} {content : Bytes} {size : Nat} {d : Digest}
    (hdelivers : source.Delivers content none) (h : digest codec size source = .ok d) :
    (spend codec size source).rest.Delivers [] none := by
  have hsize := size_pos_of_digest h
  have howes := Segmenter.owes_start hdelivers size
  simp only [digest, spend, checkSegmentSize_of_pos hsize] at h ⊢
  cases hcolumns : (absorb codec (.empty codec.totalShards) (.start source size)).1 with
  | error error => simp [hcolumns, Except.map] at h
  | ok columns => exact delivers_of_absorb howes hsize hcolumns

end Serial

/-! ## By the pool -/

namespace Pool

variable {codec : Codec} {s t : State} {action : Action}

/-- A read leaves less owed, and the other steps the segmenter as it was. -/
theorem owes_of_step (h : Step codec s action t)
    (hs : 0 < s.segmenter.size ∧ s.segmenter.Owes) :
    0 < t.segmenter.size ∧ t.segmenter.Owes := by
  obtain ⟨hsize, howes⟩ := hs
  obtain ⟨hnextOwes, hnextSize⟩ := howes.next hsize
  cases h with
  | readSegment hr hnext | readFailure hr hnext | readEnd hr hnext =>
    rw [hnext] at hnextOwes hnextSize
    exact ⟨hnextSize ▸ hsize, hnextOwes⟩
  | _ => exact ⟨hsize, howes⟩

/-- **A digest leaves nothing owed.** -/
theorem delivers_rest_spend {source : Source} {content : Bytes} {size workers : Nat} {d : Digest}
    (hsize : 0 < size) (hdelivers : source.Delivers content none)
    (h : digest codec size workers source = .ok d) :
    (spend codec size workers source).rest.Delivers [] none := by
  obtain ⟨steps, s, hrun, hfinal, hspent⟩ := exists_run_of_spend codec hsize workers source
  rw [digest, hspent] at h
  rw [hspent]
  have hslot : s.slot = none := by
    cases hslot : s.slot with
    | none => rfl
    | some error => simp [State.result, hslot] at h
  -- without a report the reader came to the end of the source
  have howes : 0 < s.segmenter.size ∧ s.segmenter.Owes :=
    hrun.invariant (motive := fun s => 0 < s.segmenter.size ∧ s.segmenter.Owes) owes_of_step
      ⟨hsize, Segmenter.owes_start hdelivers size⟩
  obtain ⟨hnot, -, hr⟩ := closed_of_isFinal (sound_of_run hrun) hfinal hslot
  obtain ⟨left, hleft, hempty⟩ := howes.2
  rcases readOut_of_run hrun _ (Or.inr hr) with hended | habandoned
  · exact hempty hended ▸ hleft
  · exact absurd habandoned hnot

end Pool

/-! ## Under a profile -/

namespace Profile

variable {profile : Profile} {strategy : Strategy} {source : Source} {content : Bytes}
variable {cores : Nat}

theorem spendWith_of_ok {codec : Codec} (h : profile.codec = .ok codec) (source : Source)
    (compute : Codec → Spent) : profile.spendWith source compute = compute codec := by
  rw [spendWith, h]

theorem spend_of_error {error : Error} (h : profile.codec = .error error) (strategy : Strategy)
    (source : Source) (cores : Nat) :
    profile.spend strategy source cores = ⟨.error error, source⟩ := by
  cases strategy with
  | serial => rw [spend, spendSerial, spendWith, h]
  | parallel => rw [spend, spendParallel, spendWith, h]

theorem codec_of_check_error {error : Error} (h : profile.check = .error error) :
    profile.codec = .error error := by
  rw [codec, h]
  rfl

/-- **A profile that is refused costs the source nothing.** -/
theorem spend_of_check {error : Error} (h : profile.check = .error error) (strategy : Strategy)
    (source : Source) (cores : Nat) :
    profile.spend strategy source cores = ⟨.error error, source⟩ :=
  spend_of_error (codec_of_check_error h) strategy source cores

/-- A profile has a codec only if it has a segment size. -/
theorem segmentSize_pos_of_codec {codec : Codec} (h : profile.codec = .ok codec) :
    0 < profile.segmentSize.toNat := by
  rcases Nat.eq_zero_or_pos profile.segmentSize.toNat with hzero | hsize
  · simp [Profile.codec, check, checkSegmentSize, hzero, bind, Except.bind] at h
  · exact hsize

/-- **A digest takes all of the content.** -/
theorem delivers_rest_spend {d : Digest} (hdelivers : source.Delivers content none)
    (h : profile.digest strategy source cores = .ok d) :
    (profile.spend strategy source cores).rest.Delivers [] none := by
  rw [digest] at h
  cases hcodec : profile.codec with
  | error error =>
    rw [spend_of_error hcodec] at h
    cases h
  | ok codec =>
    have hsize := segmentSize_pos_of_codec hcodec
    cases strategy with
    | serial =>
      rw [spend, spendSerial, spendWith_of_ok hcodec] at h ⊢
      exact Serial.delivers_rest_spend hdelivers h
    | parallel =>
      rw [spend, spendParallel, spendWith_of_ok hcodec] at h ⊢
      exact Pool.delivers_rest_spend hsize hdelivers h

end Profile

end ErasureDigest
