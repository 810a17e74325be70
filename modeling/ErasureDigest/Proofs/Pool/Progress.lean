import ErasureDigest.Proofs.Pool.Step

/-!
# Every run of the pool ends

Each step lowers `State.effort` (`effort_lt_of_step`), so a run is no
longer than the effort it starts with (`length_le_of_run`), whatever the
schedule. And it does not stick before the end: where the schedule of
`State.nextAction?` finds nothing, the queue is closed and every worker has
ended (`isFinal_of_nextAction?`), so the states without a step are the
final ones (`isFinal_iff`). `Pool.digest` is therefore read off the last
state of one complete run (`exists_run_of_digest`).
-/

namespace ErasureDigest

-- a sum of numbers starts at the literal zero, whatever else is imported
attribute [local instance (1100)] Zero.ofOfNat0

namespace Source

/-- A fill never leaves a heavier source, whatever it gives. -/
theorem weight_rest_fill_le (room : Nat) (source : Source) :
    weight (fill room source).rest ≤ weight source := by
  induction source generalizing room with
  | nil => simp [fill]
  | cons event rest ih =>
    unfold fill
    split
    · exact Nat.le_refl _
    · rcases event with bytes | - | - | fault
      · rcases hdrop : bytes.drop room with - | ⟨b, left⟩
        · -- all of the bytes fit, and the rest of the source is read on
          have := ih (room - bytes.length)
          simp only [weight_cons, hdrop]
          omega
        · have hlength := congrArg List.length hdrop
          simp only [List.length_drop, List.length_cons] at hlength
          simp only [weight_cons, eventWeight, hdrop, List.length_cons]
          omega
      · simp only [weight_cons]
        omega
      · have := ih room
        simp only [weight_cons]
        omega
      · simp only [weight_cons]
        omega

end Source

/-- The next segment, failure or end leaves no heavier segmenter. -/
theorem Segmenter.weight_next_le (s : Segmenter) : s.next.2.weight ≤ s.weight := by
  have hfill := Source.weight_rest_fill_le s.size s.source
  rw [next]
  split
  · exact Nat.le_refl _
  · simp only
    split <;> exact hfill

namespace Pool

/-- A sum over the workers changes by what the worker that is set
contributes. -/
theorem sum_map_set {f : Worker → Nat} {workers : List Worker} {i : Nat} {worker : Worker}
    (h : workers[i]? = some worker) (worker' : Worker) :
    ((workers.set i worker').map f).sum + f worker = (workers.map f).sum + f worker' := by
  induction workers generalizing i with
  | nil => simp at h
  | cons first rest ih =>
    cases i with
    | zero =>
      obtain rfl : first = worker := by simpa using h
      simp only [List.set_cons_zero, List.map_cons, List.sum_cons]
      omega
    | succ i =>
      have := ih (i := i) (by simpa using h)
      simp only [List.set_cons_succ, List.map_cons, List.sum_cons]
      omega

variable {codec : Codec} {s t : State} {action : Action} {steps : List (State × Action)}

/-- A worker that can take part in less leaves less to come. -/
theorem effort_setWorker_lt {i : Nat} {worker : Worker} (hworker : s.workers[i]? = some worker)
    (worker' : Worker) (h : worker'.effort < worker.effort) :
    (s.setWorker i worker').effort < s.effort := by
  have hsum := sum_map_set (f := Worker.effort) hworker worker'
  simp only [State.effort, State.setWorker]
  omega

/-- **Each step lowers the effort.** -/
theorem effort_lt_of_step (h : Step codec s action t) : t.effort < s.effort := by
  cases h with
  | @readSegment segment segmenter hreader hnext =>
    -- the segment is paid for by what the source no longer has to give
    have hweight := Segmenter.weight_lt_of_next hnext
    simp only [State.effort, hreader, Reader.effort]
    omega
  | @readFailure error segmenter hreader hnext =>
    have hweight := s.segmenter.weight_next_le
    simp only [hnext] at hweight
    simp only [State.effort, hreader, Reader.effort]
    omega
  | @readEnd segmenter hreader hnext =>
    have hweight := s.segmenter.weight_next_le
    simp only [hnext] at hweight
    simp only [State.effort, hreader, Reader.effort]
    omega
  | send hreader hlistening hroom =>
    simp only [State.effort, hreader, Reader.effort, List.length_append, List.length_singleton]
    omega
  | refuse hreader hlistening =>
    simp only [State.effort, hreader, Reader.effort]
    omega
  | close hreader =>
    simp only [State.effort, hreader, Reader.effort]
    omega
  | @take i segment queue hworker hqueue =>
    -- the one step that raises a worker's effort, by less than the queue's goes down
    have hsum := sum_map_set (f := Worker.effort) hworker (.hashing segment)
    simp only [Worker.effort] at hsum
    simp only [State.effort, hqueue, List.length_cons]
    omega
  | leave hworker => exact effort_setWorker_lt hworker _ (by simp [Worker.effort])
  | accept hworker => exact effort_setWorker_lt hworker _ (by simp [Worker.effort])
  | reject hworker => exact effort_setWorker_lt hworker _ (by simp [Worker.effort])
  | file hworker => exact effort_setWorker_lt hworker .idle (by simp [Worker.effort])
  | duplicate hworker => exact effort_setWorker_lt hworker _ (by simp [Worker.effort])
  | @report i segment error hworker =>
    exact effort_setWorker_lt hworker (.stopping segment) (by simp [Worker.effort])
  | stop hworker => exact effort_setWorker_lt hworker _ (by simp [Worker.effort])

/-- So the steps of a run use up the effort. -/
theorem length_add_effort_le_of_run (h : Run codec s steps t) :
    steps.length + t.effort ≤ s.effort := by
  induction h with
  | refl => simp
  | snoc _ hlast ih =>
    have := effort_lt_of_step hlast
    rw [List.length_append, List.length_singleton]
    omega

/-- **Every run is finite**, and no longer than the effort at its start. -/
theorem length_le_of_run (h : Run codec s steps t) : steps.length ≤ s.effort := by
  have := length_add_effort_le_of_run h
  omega

/-! ## Where a run can end -/

/-- Where no worker from number `i` on can do anything, each by itself
cannot. -/
theorem workerAction?_of_firstWorkerAction? {i : Nat} {workers : List Worker}
    (h : s.firstWorkerAction? i workers = none) :
    ∀ worker ∈ workers, ∃ k, s.workerAction? k worker = none := by
  induction workers generalizing i with
  | nil => simp
  | cons first rest ih =>
    rw [State.firstWorkerAction?, Option.or_eq_none_iff] at h
    intro worker hworker
    rcases List.mem_cons.1 hworker with rfl | hworker
    · exact ⟨i, h.1⟩
    · exact ih h.2 worker hworker

/-- A worker that listens and can do nothing waits on an empty queue that
is still open. -/
theorem waits_of_workerAction? {i : Nat} {worker : Worker} (h : s.workerAction? i worker = none)
    (hlistening : worker.isListening = true) : s.queue = [] ∧ s.outcome? = none := by
  cases worker with
  | idle =>
    simp only [State.workerAction?] at h
    split at h
    · simp at h
    · simp at h
    · next hqueue hopen => exact ⟨hqueue, by rw [State.outcome?]; split <;> simp_all⟩
  | hashing segment => simp [State.workerAction?] at h
  | filing segment sums => simp [State.workerAction?] at h
  | failing segment error => simp [State.workerAction?] at h
  | stopping segment => simp [State.workerAction?] at h
  | stopped segment => simp [Worker.isListening] at hlistening
  | done => simp [Worker.isListening] at hlistening

/-- **The pool never sticks.** Where nobody can act, the reader has closed
the queue and all workers have ended: a full queue has somebody listening
who can take from it, and with nobody listening a send is refused. -/
theorem isFinal_of_nextAction? (h : s.nextAction? = none) : s.isFinal = true := by
  rw [State.nextAction?, Option.or_eq_none_iff] at h
  obtain ⟨hworkers, hreader⟩ := h
  have hwaits : s.isListening = true → s.queue = [] ∧ s.outcome? = none := by
    intro hlistening
    obtain ⟨worker, hworker, hlistens⟩ := List.any_eq_true.1 hlistening
    obtain ⟨k, hk⟩ := workerAction?_of_firstWorkerAction? hworkers worker hworker
    exact waits_of_workerAction? hk hlistens
  cases hr : s.reader with
  | reading => simp [State.readerAction?, hr] at hreader
  | sending segment =>
    cases hlistening : s.isListening with
    | false => simp [State.readerAction?, hr, hlistening] at hreader
    | true =>
      have hqueue := (hwaits hlistening).1
      simp [State.readerAction?, hr, hlistening, hqueue, queueCapacity] at hreader
  | closing outcome => simp [State.readerAction?, hr] at hreader
  | closed outcome =>
    cases hlistening : s.isListening with
    | false => simp [State.isFinal, State.outcome?, hr, hlistening]
    | true =>
      have hopen := (hwaits hlistening).2
      simp [State.outcome?, hr] at hopen

/-- In a final state nobody listens. -/
theorem isListening_of_isFinal (h : s.isFinal = true) : s.isListening = false := by
  rw [State.isFinal, Bool.and_eq_true, Bool.not_eq_true'] at h
  exact h.2

/-- What is final has a closed queue and only workers that have ended. -/
theorem exists_closed_of_isFinal (h : s.isFinal = true) :
    ∃ outcome, s.reader = .closed outcome ∧ ∀ worker ∈ s.workers, worker.isListening = false := by
  have hlistening := isListening_of_isFinal h
  rw [State.isFinal, Bool.and_eq_true] at h
  obtain ⟨hclosed, -⟩ := h
  have hended : ∀ worker ∈ s.workers, worker.isListening = false := by
    intro worker hworker
    have := List.any_eq_false.1 hlistening worker hworker
    rwa [Bool.not_eq_true] at this
  cases hr : s.reader with
  | closed outcome => exact ⟨outcome, rfl, hended⟩
  | _ => simp [State.outcome?, hr] at hclosed

/-- Nothing happens in a final state. -/
theorem not_step_of_isFinal (hfinal : s.isFinal = true) : ¬ Step codec s action t := by
  obtain ⟨outcome, hread, hended⟩ := exists_closed_of_isFinal hfinal
  intro h
  cases h with
  | readSegment hreader | readFailure hreader | readEnd hreader | send hreader | refuse hreader
  | close hreader => simp [hread] at hreader
  | take hworker | leave hworker | accept hworker | reject hworker | file hworker
  | duplicate hworker | report hworker | stop hworker =>
    simpa [Worker.isListening] using hended _ (List.mem_of_getElem? hworker)

/-- **A run has ended exactly in the final states.** -/
theorem isFinal_iff (codec : Codec) : s.isFinal = true ↔ ∀ action, s.step codec action = none := by
  constructor
  · intro hfinal action
    cases hstep : s.step codec action with
    | none => rfl
    | some t => exact absurd (step_of_eq_some hstep) (not_step_of_isFinal hfinal)
  · intro hstuck
    apply isFinal_of_nextAction?
    cases hnext : s.nextAction? with
    | none => rfl
    | some action =>
      have hsome : (s.step codec action).isSome := State.isSome_step_of_nextAction? hnext
      simp [hstuck action] at hsome

/-- With as many steps as there is effort, the schedule comes to the end. -/
theorem exists_run_of_effort_le (codec : Codec) {count : Nat} (h : s.effort ≤ count) :
    ∃ steps, Run codec s steps (s.run codec count) ∧ (s.run codec count).isFinal = true := by
  induction count generalizing s with
  | zero =>
    refine ⟨[], .refl, ?_⟩
    rw [State.run, isFinal_iff codec]
    intro action
    cases hstep : s.step codec action with
    | none => rfl
    | some t =>
      have := effort_lt_of_step (step_of_eq_some hstep)
      omega
  | succ count ih =>
    rw [State.run]
    split
    · next hnext => exact ⟨[], .refl, isFinal_of_nextAction? hnext⟩
    · next action hnext =>
      have hstep : Step codec s action
          ((s.step codec action).get (State.isSome_step_of_nextAction? hnext)) :=
        step_of_eq_some (Option.some_get _).symm
      have hlt := effort_lt_of_step hstep
      obtain ⟨steps, hrun, hfinal⟩ := ih (s := (s.step codec action).get _) (by omega)
      exact ⟨_, hrun.cons hstep, hfinal⟩

/-- **What a pool comes to is read off the end of a complete run.** -/
theorem exists_run_of_spend (codec : Codec) {size : Nat} (hsize : 0 < size) (workers : Nat)
    (source : Source) :
    ∃ steps s, Run codec (.start source size workers) steps s ∧ s.isFinal = true ∧
      spend codec size workers source = ⟨s.result codec, s.segmenter.source⟩ := by
  obtain ⟨steps, hrun, hfinal⟩ :=
    exists_run_of_effort_le codec (s := State.start source size workers) (Nat.le_refl _)
  refine ⟨steps, _, hrun, hfinal, ?_⟩
  rw [spend, checkSegmentSize_of_pos hsize]

/-- So is its digest. -/
theorem exists_run_of_digest (codec : Codec) {size : Nat} (hsize : 0 < size) (workers : Nat)
    (source : Source) :
    ∃ steps s, Run codec (.start source size workers) steps s ∧ s.isFinal = true ∧
      digest codec size workers source = s.result codec := by
  obtain ⟨steps, s, hrun, hfinal, hspent⟩ := exists_run_of_spend codec hsize workers source
  exact ⟨steps, s, hrun, hfinal, by rw [digest, hspent]⟩

end Pool

end ErasureDigest
