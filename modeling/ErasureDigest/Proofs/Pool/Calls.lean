import ErasureDigest.Proofs.Pool.Conservation
import Mathlib.Data.List.Nodup
import Mathlib.Data.List.Perm.Subperm
import Mathlib.Algebra.Order.BigOperators.Group.List
import Mathlib.Algebra.Order.Group.Nat

/-!
# What the codec is asked for

The segments handed to the codec during a run are `codecCalls`. Each of
them is with a worker that has its answer, or in the ledger
(`copies_codecCalls`), so no segment is handed over twice
(`nodup_codecCalls`). As long as not every worker has stopped, and a
worker stops on a rejected segment of its own (`not_allStopped_of_few`), a
complete run hands over all segments of the source
(`perm_codecCalls`); after that, the reader takes one more segment at most
(`segmentsRead_le_of_allStopped`). `segments_conserved` puts this together
with where the segments are.
-/

namespace ErasureDigest

-- a sum of numbers starts at the literal zero, whatever else is imported
attribute [local instance (1100)] Zero.ofOfNat0

/-- Whether a codec rejects a segment. -/
def Codec.rejects (codec : Codec) (segment : Bytes) : Bool :=
  match codec.sums segment with
  | .error _ => true
  | .ok _ => false

theorem Codec.rejects_iff {codec : Codec} {segment : Bytes} :
    codec.rejects segment = true ↔ ∃ error, codec.sums segment = .error error := by
  unfold Codec.rejects
  cases codec.sums segment <;> simp

namespace Pool

/-- The segment that an action hands to the codec. -/
def State.call? (s : State) : Action → Option Segment
  | .hash i =>
    match s.workers[i]? with
    | some (.hashing segment) => some segment
    | _ => none
  | _ => none

/-- **The segments handed to the codec during a run**, in order. -/
def codecCalls (steps : List (State × Action)) : List Segment :=
  steps.filterMap fun step => step.1.call? step.2

/-- How many segments with a number a worker has the codec's answer on. -/
def Worker.answered (id : Nat) : Worker → Nat
  | filing segment _ | failing segment _ | stopping segment | stopped segment =>
    Pool.copies id [segment]
  | idle | hashing _ | done => 0

/-- How often the segment with a number is where the codec has answered on
it. -/
def State.answered (s : State) (id : Nat) : Nat :=
  (s.workers.map (Worker.answered id)).sum + (s.ledger.find? id).toList.length

variable {codec : Codec} {s t : State} {action : Action} {i id : Nat} {worker worker' : Worker}
variable {steps : List (State × Action)} {segments : List Segment}
variable {failure : Option Error} {source : Source} {size workers : Nat}

@[simp] theorem codecCalls_append (before after : List (State × Action)) :
    codecCalls (before ++ after) = codecCalls before ++ codecCalls after :=
  List.filterMap_append

theorem codecCalls_singleton (s : State) (action : Action) :
    codecCalls [(s, action)] = (s.call? action).toList := by
  cases hcall : s.call? action <;> simp [codecCalls, hcall]

/-! ## At most once -/

/-- A worker's step changes what that worker has answers on. -/
theorem answered_setWorker (hworker : s.workers[i]? = some worker) (worker' : Worker) (id : Nat) :
    (s.setWorker i worker').answered id + worker.answered id =
      s.answered id + worker'.answered id := by
  have hsum := sum_map_set (f := Worker.answered id) hworker worker'
  simp only [State.answered, State.setWorker]
  omega

/-- **The codec answers when it is asked, and no answer is lost.** -/
theorem answered_of_step (h : Step codec s action t) (id : Nat) :
    t.answered id = s.answered id + copies id (s.call? action).toList := by
  cases h with
  | readSegment hr | readFailure hr | readEnd hr | send hr | refuse hr | close hr => rfl
  | @take i segment queue hworker hqueue =>
    have hset := answered_setWorker hworker (.hashing segment) id
    exact Nat.add_right_cancel hset
  | leave hworker =>
    have hset := answered_setWorker hworker .done id
    exact Nat.add_right_cancel hset
  | @accept i segment sums hworker hsums =>
    have hset := answered_setWorker hworker (.filing segment sums) id
    simp only [State.call?, hworker, Option.toList]
    simpa [Worker.answered] using hset
  | @reject i segment error hworker hsums =>
    have hset := answered_setWorker hworker (.failing segment error) id
    simp only [State.call?, hworker, Option.toList]
    simpa [Worker.answered] using hset
  | @file i segment sums hworker hfiled =>
    have hsum := sum_map_set (f := Worker.answered id) hworker .idle
    simp only [Worker.answered, copies_singleton] at hsum
    simp only [State.answered, State.call?, Option.toList, copies_nil, Ledger.find?_put]
    -- the answer goes from the worker to the ledger
    by_cases hid : id = segment.id
    · subst hid
      simp only [hfiled, if_true, List.length_cons, List.length_nil] at hsum ⊢
      omega
    · rw [if_neg fun h => hid h.symm] at hsum
      rw [if_neg hid]
      omega
  | @duplicate i segment sums hworker hfiled =>
    have hset := answered_setWorker hworker (.failing segment (.duplicateSegment segment.id)) id
    exact Nat.add_right_cancel hset
  | @report i segment error hworker =>
    have hset := answered_setWorker hworker (.stopping segment) id
    exact Nat.add_right_cancel hset
  | @stop i segment hworker =>
    have hset := answered_setWorker hworker (.stopped segment) id
    exact Nat.add_right_cancel hset

/-- So what was handed over is what the pool has answers on. -/
theorem copies_codecCalls (h : Run codec (.start source size workers) steps s) (id : Nat) :
    copies id (codecCalls steps) = s.answered id := by
  induction h with
  | refl => simp [codecCalls, State.answered, State.start, Worker.answered]
  | @snoc steps t u action _ hlast ih =>
    rw [codecCalls_append, copies_append, codecCalls_singleton, ih, answered_of_step hlast]

/-- An answer is on a segment that is somewhere. -/
theorem answered_le_copies (worker : Worker) (id : Nat) : worker.answered id ≤ worker.copies id := by
  cases worker with
  | filing | failing | stopping | stopped => exact Nat.le_refl _
  | idle | hashing | done => exact Nat.zero_le _

theorem answered_le_places (s : State) (id : Nat) : s.answered id ≤ s.places id := by
  have hsum : (s.workers.map (Worker.answered id)).sum ≤ (s.workers.map (Worker.copies id)).sum :=
    List.sum_le_sum fun worker _ => answered_le_copies worker id
  rw [State.answered, State.places]
  omega

/-- Segments with no more than one copy of each number are distinct. -/
theorem nodup_of_copies (h : ∀ id, copies id segments ≤ 1) : (segments.map (·.id)).Nodup := by
  rw [List.nodup_iff_count_le_one]
  intro id
  have hcount : (segments.map (·.id)).count id = copies id segments := by
    rw [List.count, List.countP_map]
    rfl
  rw [hcount]
  exact h id

/-- **No segment is handed to the codec twice.** -/
theorem nodup_codecCalls (h : Run codec (.start source size workers) steps s) :
    ((codecCalls steps).map (·.id)).Nodup := by
  refine nodup_of_copies fun id => ?_
  rw [copies_codecCalls h]
  exact Nat.le_trans (answered_le_places s id) ((sound_of_run h).counted.places_le_one id)

/-- And what is handed over is a segment of the source. -/
theorem isOf_of_mem_codecCalls (h : Run codec (.start source size workers) steps s) :
    ∀ segment ∈ codecCalls steps, segment.IsOf (Segmenter.start source size).drain.1 := by
  induction h with
  | refl => simp [codecCalls]
  | @snoc steps t u action hrun hlast ih =>
    intro segment hsegment
    rw [codecCalls_append, codecCalls_singleton, List.mem_append] at hsegment
    rcases hsegment with hearlier | hnow
    · exact ih segment hearlier
    · have hgenuine := (sound_of_run hrun).genuine
      rw [Option.mem_toList] at hnow
      unfold State.call? at hnow
      split at hnow
      · split at hnow
        · next hworker =>
          obtain rfl := Option.some.inj hnow
          exact hgenuine.worker hworker
        · simp at hnow
      · simp at hnow

/-! ## Exactly once -/

/-- The number of workers never changes. -/
theorem length_workers_of_run (h : Run codec (.start source size workers) steps s) :
    s.workers.length = max 1 workers := by
  have hstep : ∀ {s t : State} {action : Action}, Step codec s action t →
      s.workers.length = max 1 workers → t.workers.length = max 1 workers := by
    intro s t action h hlength
    cases h <;> simpa [State.setWorker] using hlength
  exact h.invariant hstep (by simp [State.start])

/-- Workers that have all stopped have stopped on segments. -/
theorem exists_map_of_allStopped {workers : List Worker}
    (h : ∀ worker ∈ workers, ∃ segment, worker = .stopped segment) :
    ∃ stopped : List Segment, workers = stopped.map Worker.stopped := by
  induction workers with
  | nil => exact ⟨[], rfl⟩
  | cons worker rest ih =>
    obtain ⟨segment, rfl⟩ := h worker List.mem_cons_self
    obtain ⟨stopped, rfl⟩ := ih fun other hother => h other (List.mem_cons_of_mem _ hother)
    exact ⟨segment :: stopped, rfl⟩

/-- **With fewer rejected segments than workers, some worker goes on**:
each that has stopped holds a rejected segment of its own. -/
theorem not_allStopped_of_few (hs : Sound codec segments failure s)
    (hfew : segments.countP (codec.rejects ·.bytes) < s.workers.length) : ¬ s.AllStopped := by
  intro hall
  obtain ⟨stopped, hstopped⟩ := exists_map_of_allStopped hall
  have hcopies : ∀ id, copies id stopped = (s.workers.map (Worker.copies id)).sum := by
    intro id
    rw [hstopped]
    clear hstopped
    induction stopped with
    | nil => rfl
    | cons segment rest ih =>
      rw [copies_cons, ih, List.map_cons, List.map_cons, List.sum_cons]
      rfl
  have hnodup : (stopped.map (·.id)).Nodup := by
    refine nodup_of_copies fun id => ?_
    have hplaces := hs.counted.places_le_one id
    rw [hcopies]
    rw [State.places] at hplaces
    omega
  have hsubset : stopped ⊆ segments.filter (codec.rejects ·.bytes) := by
    intro segment hsegment
    have hworker : Worker.stopped segment ∈ s.workers := by
      rw [hstopped]
      exact List.mem_map_of_mem hsegment
    obtain ⟨hof, herror⟩ := hs.genuine.workers _ hworker
    rw [List.mem_filter]
    exact ⟨List.mem_of_getElem? hof, Codec.rejects_iff.2 herror⟩
  have hle := (List.subperm_of_subset hnodup.of_map hsubset).length_le
  rw [← List.countP_eq_length_filter] at hle
  have hlength : s.workers.length = stopped.length := by rw [hstopped, List.length_map]
  omega

section Complete

variable (hrun : Run codec (.start source size workers) steps s) (hfinal : s.isFinal = true)
  (hgoes : ¬ s.AllStopped)
include hrun hfinal hgoes

/-- The reader then came to the end of the stream. -/
theorem readOut_of_isFinal :
    s.segmenter.segmentsRead = (Segmenter.start source size).drain.1.length ∧
      s.segmenter.ended = true ∧
      s.reader = .closed ((Segmenter.start source size).drain.2.elim (.ok ()) .error) := by
  obtain ⟨outcome, hr, -⟩ := exists_closed_of_isFinal hfinal
  have hnot : ¬ s.Abandoned := fun habandoned => hgoes habandoned.1
  rcases (sound_of_run hrun).supplied.ended outcome (Or.inr hr) with ⟨hread, rfl⟩ | habandoned
  · rcases readOut_of_run hrun _ (Or.inr hr) with hended | habandoned
    · exact ⟨hread, hended, hr⟩
    · exact absurd habandoned hnot
  · exact absurd habandoned hnot

/-- No segment is left on the queue, and none with a worker that has no
answer on it. -/
theorem answered_of_isFinal {id : Nat} (hid : id < (Segmenter.start source size).drain.1.length) :
    s.answered id = 1 := by
  have hs := sound_of_run hrun
  obtain ⟨hread, -, hr⟩ := readOut_of_isFinal hrun hfinal hgoes
  obtain ⟨-, -, hended⟩ := exists_closed_of_isFinal hfinal
  have hqueue : s.queue = [] := by
    by_cases hqueue : s.queue = []
    · exact hqueue
    · have hall := hs.staffed.allStopped_of_queue hqueue (isListening_of_isFinal hfinal)
      exact absurd hall hgoes
  have hworkers : s.workers.map (Worker.answered id) = s.workers.map (Worker.copies id) := by
    refine List.map_congr_left fun worker hworker => ?_
    have hlistening := hended worker hworker
    cases worker with
    | stopped | done => rfl
    | _ => simp [Worker.isListening] at hlistening
  have hplaces : s.places id = 1 := by
    rcases hs.counted.once id (by omega) with hone | ⟨-, -, habandoned⟩
    · exact hone
    · exact absurd habandoned.1 hgoes
  simp only [State.places, hr, Reader.segment?, Option.toList_none, copies_nil, hqueue] at hplaces
  rw [State.answered, hworkers]
  omega

/-- **So every segment of the source was handed to the codec**, and each
once. -/
theorem perm_codecCalls : (codecCalls steps).Perm (Segmenter.start source size).drain.1 := by
  have hcalls := isOf_of_mem_codecCalls hrun
  have hnumbered : ∀ segment ∈ (Segmenter.start source size).drain.1,
      segment.IsOf (Segmenter.start source size).drain.1 := by
    intro segment hsegment
    obtain ⟨position, hposition⟩ := List.mem_iff_getElem?.1 hsegment
    have hid := Segmenter.id_of_drain hposition
    rw [Segmenter.start, Nat.zero_add] at hid
    rw [Segment.IsOf, hid]
    exact hposition
  have hnodup : ((Segmenter.start source size).drain.1).Nodup := by
    rw [List.nodup_iff_injective_getElem]
    intro a b heq
    have ha := Segmenter.id_of_drain (List.getElem?_eq_getElem a.2)
    have hb := Segmenter.id_of_drain (List.getElem?_eq_getElem b.2)
    simp only at heq
    rw [heq, hb] at ha
    exact Fin.ext (by omega)
  rw [List.perm_ext_iff_of_nodup (nodup_codecCalls hrun).of_map hnodup]
  intro segment
  constructor
  · intro hsegment
    exact List.mem_of_getElem? (hcalls segment hsegment)
  · intro hsegment
    have hof := hnumbered segment hsegment
    have hone := answered_of_isFinal hrun hfinal hgoes (List.getElem?_eq_some_iff.1 hof).1
    rw [← copies_codecCalls hrun] at hone
    obtain ⟨other, hother, hid⟩ := List.countP_pos_iff.1 (Nat.lt_of_lt_of_eq Nat.zero_lt_one hone.symm)
    obtain rfl : segment = other := by
      have hboth := hcalls other hother
      rw [Segment.IsOf, eq_of_beq hid] at hboth
      exact Option.some.inj (hof.symm.trans hboth)
    exact hother

end Complete

/-! ## After all workers have stopped -/

/-- The segments that a reader can still take without a send. -/
def Reader.ahead : Reader → Nat
  | reading => 1
  | _ => 0

/-- Without a listener no step brings the reader further. -/
theorem ahead_of_step (h : Step codec s action t) (hs : s.AllStopped) :
    t.segmenter.segmentsRead + t.reader.ahead ≤ s.segmenter.segmentsRead + s.reader.ahead := by
  cases h with
  | readSegment hr hnext =>
    have hread := (Segmenter.segment_of_next hnext).2
    simp only [hr, Reader.ahead]
    omega
  | readFailure hr hnext =>
    have hread := (Segmenter.failure_of_next hnext).2
    simp only [hr, Reader.ahead]
    omega
  | readEnd hr hnext =>
    have hread := Segmenter.end_of_next hnext
    simp only [hr, Reader.ahead]
    omega
  | send hr hlistening => simp [hs.isListening_eq] at hlistening
  | refuse hr | close hr => exact Nat.add_le_add_left (Nat.zero_le _) _
  | take hworker | leave hworker | accept hworker | reject hworker | file hworker
  | duplicate hworker | report hworker | stop hworker => exact Nat.le_refl _

/-- **The reader takes one more segment at most.** -/
theorem segmentsRead_le_of_allStopped (h : Run codec s steps t) (hs : s.AllStopped) :
    t.segmenter.segmentsRead ≤ s.segmenter.segmentsRead + 1 := by
  have hahead : t.AllStopped ∧
      t.segmenter.segmentsRead + t.reader.ahead ≤ s.segmenter.segmentsRead + s.reader.ahead := by
    induction h with
    | refl => exact ⟨hs, Nat.le_refl _⟩
    | snoc _ hlast ih =>
      exact ⟨allStopped_of_step hlast ih.1, Nat.le_trans (ahead_of_step hlast ih.1) ih.2⟩
  have hone : s.reader.ahead ≤ 1 := by cases s.reader <;> simp [Reader.ahead]
  omega

/-! ## Segments and failures -/

/-- **No segment is lost or hashed twice, and a failure stops only its
worker.** In every state of every run each segment read is in one place;
none is handed to the codec twice. Where fewer segments are rejected than
there are workers, a complete run reads the source to its end or failure
and hands over every segment once, though one rejected segment is enough
for its result to be an error. After all workers have stopped on errors, an
error is in the slot, and the reader takes one more segment at most. -/
theorem segments_conserved (hrun : Run codec (.start source size workers) steps s) :
    Conserved codec (Segmenter.start source size).drain.1 steps s ∧
    ((codecCalls steps).map (·.id)).Nodup ∧
    (∀ segment ∈ codecCalls steps, segment.IsOf (Segmenter.start source size).drain.1) ∧
    ((∀ action, s.step codec action = none) →
      (Segmenter.start source size).drain.1.countP (codec.rejects ·.bytes) < max 1 workers →
      s.segmenter.segmentsRead = (Segmenter.start source size).drain.1.length ∧
      s.segmenter.ended = true ∧
      s.reader = .closed ((Segmenter.start source size).drain.2.elim (.ok ()) .error) ∧
      (codecCalls steps).Perm (Segmenter.start source size).drain.1 ∧
      ∀ segment ∈ (Segmenter.start source size).drain.1, codec.rejects segment.bytes = true →
        ∃ error, s.result codec = .error error ∧
          ∃ other ∈ (Segmenter.start source size).drain.1,
            codec.sums other.bytes = .error error) ∧
    (s.AllStopped → s.slot.isSome = true ∧ ∀ (more : List (State × Action)) (t : State),
      Run codec s more t → t.segmenter.segmentsRead ≤ s.segmenter.segmentsRead + 1) := by
  have hs := sound_of_run hrun
  refine ⟨conserved_of_run hrun, nodup_codecCalls hrun, isOf_of_mem_codecCalls hrun, ?_, ?_⟩
  · intro hstuck hfew
    have hfinal : s.isFinal = true := (isFinal_iff codec).2 hstuck
    have hgoes : ¬ s.AllStopped :=
      not_allStopped_of_few hs (by rw [length_workers_of_run hrun]; exact hfew)
    obtain ⟨hread, hended, hr⟩ := readOut_of_isFinal hrun hfinal hgoes
    refine ⟨hread, hended, hr, perm_codecCalls hrun hfinal hgoes, ?_⟩
    intro segment hsegment hrejects
    cases hslot : s.slot with
    | none =>
      obtain ⟨sums, hsums⟩ := accepts_of_isFinal hs hfinal hslot segment hsegment
      obtain ⟨error, herror⟩ := Codec.rejects_iff.1 hrejects
      simp [hsums] at herror
    | some error => exact ⟨error, by rw [State.result, hslot], hs.genuine.slot error hslot⟩
  · intro hall
    exact ⟨hs.staffed.isSome_slot_of_allStopped hall,
      fun more t hmore => segmentsRead_le_of_allStopped hmore hall⟩

/-- One of two workers meets the rejected one of two segments: the other
goes on, and both segments are handed to the codec. -/
theorem codecCalls_of_rejected_segment :
    ∃ steps s, Run ((Codec.copying 1 1).refusing (· == [1]) "no") (.start [.data [1, 2]] 1 2) steps s ∧
      (∀ action, s.step ((Codec.copying 1 1).refusing (· == [1]) "no") action = none) ∧
      s.segmenter.segmentsRead = 2 ∧ (codecCalls steps).Perm [⟨0, [1]⟩, ⟨1, [2]⟩] ∧
      ∃ error, s.result ((Codec.copying 1 1).refusing (· == [1]) "no") = .error error := by
  have hdrain : (Segmenter.start [.data [1, 2]] 1).drain.1 = [⟨0, [1]⟩, ⟨1, [2]⟩] := by
    rw [Segmenter.drain_of_segment rfl, Segmenter.drain_of_segment rfl, Segmenter.drain_of_end rfl]
    rfl
  obtain ⟨steps, s, hrun, hfinal, -⟩ := exists_run_of_digest
    ((Codec.copying 1 1).refusing (· == [1]) "no") Nat.zero_lt_one 2 [.data [1, 2]]
  have hstuck := (isFinal_iff ((Codec.copying 1 1).refusing (· == [1]) "no")).1 hfinal
  obtain ⟨-, -, -, hcomplete, -⟩ := segments_conserved hrun
  rw [hdrain] at hcomplete
  obtain ⟨hread, -, -, hperm, hfails⟩ := hcomplete hstuck (by decide)
  obtain ⟨error, hresult, -⟩ := hfails ⟨0, [1]⟩ (by simp) rfl
  exact ⟨steps, s, hrun, hstuck, hread, hperm, error, hresult⟩

end Pool

end ErasureDigest
