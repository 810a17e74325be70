import ErasureDigest.Proofs.Hashing.Serial
import ErasureDigest.Proofs.Pool.Results

/-!
# The pool and the serial digest

However reader and workers take turns, the pool gives the serial digest, or
the failure of the source that the serial computation gives. Where that
one meets a rejected segment first, the pool gives the error reported
first, which is that of a rejected segment of the source, though not always
of the first (`digest_of_every_run`). Which of the two it is depends on the
reports alone (`result_of_unreported`, `result_of_reported`).
-/

namespace ErasureDigest

namespace Pool

variable {codec : Codec} {size workers : Nat} {source : Source}
variable {steps : List (State × Action)} {s : State}

/-- A run without a report gives the serial digest, which did not meet a
rejected segment. -/
theorem result_of_unreported (hsize : 0 < size)
    (hrun : Run codec (.start source size workers) steps s) (hfinal : s.isFinal = true)
    (hslot : s.slot = none) :
    s.result codec = Serial.digest codec size source ∧
      ((∃ d, s.result codec = .ok d) ∨ ∃ fault, s.result codec = .error (.sourceRead fault)) := by
  have hs := sound_of_run hrun
  have hresult := result_eq_outcome hs hfinal hslot
  refine ⟨by rw [hresult, Serial.digest_eq_outcome hsize], ?_⟩
  have haccepts : ∀ segment ∈ (Segmenter.start source size).drain.1.map (·.bytes),
      codec.Accepts segment := by
    simpa using accepts_of_isFinal hs hfinal hslot
  rw [hresult]
  cases hfailure : (Segmenter.start source size).drain.2 with
  | none =>
    obtain ⟨d, hd, -⟩ := Codec.exists_outcome_eq_ok haccepts
    exact Or.inl ⟨d, hd⟩
  | some error =>
    obtain ⟨fault, rfl⟩ := Segmenter.exists_fault_of_drain hfailure
    exact Or.inr ⟨fault, Codec.outcome_of_failure haccepts⟩

/-- A run with a report gives the first one, the error of a rejected
segment, and then the serial computation met one too. -/
theorem result_of_reported (hsize : 0 < size)
    (hrun : Run codec (.start source size workers) steps s) {error : Error}
    (hslot : s.slot = some error) :
    s.result codec = .error error ∧ (reports steps).head? = some error ∧
      (∃ segment ∈ (Segmenter.start source size).drain.1,
        codec.sums segment.bytes = .error error) ∧
      ∃ segment other, codec.sums segment = .error other ∧
        Serial.digest codec size source = .error other := by
  obtain ⟨segment, hsegment, hsums⟩ := (sound_of_run hrun).genuine.slot error hslot
  refine ⟨by rw [State.result, hslot], by rw [← slot_of_run hrun rfl, hslot],
    ⟨segment, hsegment, hsums⟩, ?_⟩
  obtain ⟨before, first, after, other, -, -, hfirst, houtcome⟩ :=
    Codec.exists_outcome_eq_error (List.mem_map_of_mem hsegment) hsums
      (Segmenter.start source size).drain.2
  exact ⟨first, other, hfirst, by rw [Serial.digest_eq_outcome hsize, houtcome]⟩

/-- **Every schedule agrees with hashing in order.** A run can be no
longer than the effort it starts with, and where no action can happen any
more the pool has ended: with the serial digest; with the failure of the
source, where the serial computation gives that; and where it gives the
error of a rejected segment, with the error reported first, which is that
of some rejected segment in front of any failure of the source. No error
is ever one of scheduling. `Pool.digest` is what one such run gives. -/
theorem digest_of_every_run (hcodec : codec.OnlyEncodeFaults) (hsize : 0 < size)
    (source : Source) (workers : Nat) :
    (∀ steps s, Run codec (.start source size workers) steps s →
      steps.length ≤ (State.start source size workers).effort ∧
      ((∀ action, s.step codec action = none) →
        s.isFinal = true ∧
        (match Serial.digest codec size source with
        | .ok d => s.result codec = .ok d
        | .error (.sourceRead fault) => s.result codec = .error (.sourceRead fault)
        | .error (.encode _) =>
          ∃ error, (reports steps).head? = some error ∧ s.result codec = .error error ∧
            ∃ segment ∈ (Segmenter.start source size).drain.1,
              codec.sums segment.bytes = .error error
        | .error _ => False) ∧
        ∀ error, s.result codec = .error error → error.isInternal = false)) ∧
    ∃ steps s, Run codec (.start source size workers) steps s ∧ s.isFinal = true ∧
      digest codec size workers source = s.result codec := by
  refine ⟨fun steps s hrun => ⟨length_le_of_run hrun, fun hstuck => ?_⟩,
    exists_run_of_digest codec hsize workers source⟩
  have hfinal : s.isFinal = true := (isFinal_iff codec).2 hstuck
  refine ⟨hfinal, ?_⟩
  cases hslot : s.slot with
  | none =>
    obtain ⟨hserial, ⟨d, hd⟩ | ⟨fault, hfault⟩⟩ := result_of_unreported hsize hrun hfinal hslot
    · simp [← hserial, hd]
    · simp [← hserial, hfault, Error.isInternal]
  | some error =>
    obtain ⟨hresult, hreport, ⟨segment, hsegment, hsums⟩, first, other, hfirst, hserial⟩ :=
      result_of_reported hsize hrun hslot
    -- both errors are those of rejected segments, and so of encoding
    obtain ⟨fault, rfl⟩ := hcodec.exists_fault_of_sums hfirst
    obtain ⟨reported, rfl⟩ := hcodec.exists_fault_of_sums hsums
    rw [hserial, hresult]
    refine ⟨⟨_, hreport, rfl, segment, hsegment, hsums⟩, fun error herror => ?_⟩
    obtain rfl := Except.error.inj herror
    rfl

/-- Two workers over a source of two segments, the second rejected, that
then fails: the rejected segment gives the error. -/
theorem digest_of_rejected_segment :
    (((Codec.copying 1 1).refusing (· == [2]) "odd one out").OnlyEncodeFaults ∧ 0 < 1) ∧
    digest ((Codec.copying 1 1).refusing (· == [2]) "odd one out") 1 2
      [.data [1, 2], .failure .notText] = .error (.encode (.refused "odd one out")) := by
  have hcodec : ((Codec.copying 1 1).refusing (· == [2]) "odd one out").OnlyEncodeFaults :=
    (Codec.onlyEncodeFaults_copying 1 1).refusing _ _
  have hserial : Serial.digest ((Codec.copying 1 1).refusing (· == [2]) "odd one out") 1
      [.data [1, 2], .failure .notText] = .error (.encode (.refused "odd one out")) := by
    have hfull : Bytes.fullPieces 1 ([[1], [2]].flatten ++ []) = [[1], [2]] :=
      Bytes.fullPieces_of_pieces (by simp) (by decide)
    rw [Serial.digest_eq_outcome_of_delivers _ Nat.zero_lt_one
      (.data [1, 2] (.failed .notText [])), Bytes.segments]
    have haccepts : ∀ other ∈ [[1]],
        ((Codec.copying 1 1).refusing (· == [2]) "odd one out").Accepts other := by
      simpa using ⟨_, rfl⟩
    exact hfull ▸ Codec.outcome_of_rejected haccepts rfl
  refine ⟨⟨hcodec, Nat.zero_lt_one⟩, ?_⟩
  obtain ⟨hruns, steps, s, hrun, hfinal, hdigest⟩ :=
    digest_of_every_run hcodec Nat.zero_lt_one [.data [1, 2], .failure .notText] 2
  have hagrees := ((hruns steps s hrun).2 ((isFinal_iff _).1 hfinal)).2.1
  rw [hserial] at hagrees
  obtain ⟨error, -, hresult, segment, -, hsums⟩ := hagrees
  -- the only error there is to report is the refusal
  rw [Codec.sums_refusing] at hsums
  split at hsums
  · obtain rfl := Except.error.inj hsums
    rw [hdigest, hresult]
  · obtain ⟨shards, hshards⟩ : (Codec.copying 1 1).Accepts segment.bytes := ⟨_, rfl⟩
    simp [hshards] at hsums

end Pool

end ErasureDigest
