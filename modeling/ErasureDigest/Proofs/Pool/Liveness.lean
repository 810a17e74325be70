import ErasureDigest.Proofs.Pool.Conservation

/-!
# The pool always comes to its end

A pool has ended when the queue is closed and every worker is done or has
stopped (`State.Ended`), and these are the states without a step
(`ended_iff`). Each step lowers the effort, so no run goes on forever
(`not_forever`), and each can be completed (`exists_run_to_end`). A reader
that is to send when all workers have stopped has one way left: the send is
refused and the queue closed (`actions_of_allStopped`). `never_stuck` says
this of every state that a run reaches.
-/

namespace ErasureDigest

namespace Pool

/-- **The queue is closed and every worker has ended.** -/
def State.Ended (s : State) : Prop :=
  (∃ outcome, s.reader = .closed outcome) ∧
    ∀ worker ∈ s.workers, worker = .done ∨ ∃ segment, worker = .stopped segment

/-- What actions come to, one after the other, if they can happen. -/
def State.after? (codec : Codec) (s : State) : List Action → Option State
  | [] => some s
  | action :: rest => (s.step codec action).bind fun t => t.after? codec rest

variable {codec : Codec} {s t : State} {action : Action} {steps more : List (State × Action)}
variable {source : Source} {size workers : Nat}

/-- Actions that can happen make a run. -/
theorem exists_run_of_after? {actions : List Action} (h : s.after? codec actions = some t) :
    ∃ steps, Run codec s steps t ∧ steps.map (·.2) = actions := by
  induction actions generalizing s with
  | nil =>
    obtain rfl := Option.some.inj h
    exact ⟨[], .refl, rfl⟩
  | cons action rest ih =>
    obtain ⟨u, hstep, hrest⟩ := Option.bind_eq_some_iff.1 h
    obtain ⟨steps, hrun, hactions⟩ := ih hrest
    exact ⟨(s, action) :: steps, hrun.cons (step_of_eq_some hstep), by rw [List.map_cons, hactions]⟩

/-! ## No state is stuck -/

/-- What has ended is final. -/
theorem ended_iff_isFinal : s.Ended ↔ s.isFinal = true := by
  constructor
  · rintro ⟨⟨outcome, hr⟩, hended⟩
    have hlistening : s.isListening = false := by
      rw [State.isListening, List.any_eq_false]
      intro worker hworker
      rcases hended worker hworker with rfl | ⟨segment, rfl⟩ <;> simp [Worker.isListening]
    simp [State.isFinal, State.outcome?, hr, hlistening]
  · intro hfinal
    obtain ⟨outcome, hr, hended⟩ := exists_closed_of_isFinal hfinal
    refine ⟨⟨outcome, hr⟩, fun worker hworker => ?_⟩
    have hlistening := hended worker hworker
    cases worker with
    | done => exact Or.inl rfl
    | stopped segment => exact Or.inr ⟨segment, rfl⟩
    | _ => simp [Worker.isListening] at hlistening

/-- **What has not ended has a step.** -/
theorem ended_iff (codec : Codec) : s.Ended ↔ ∀ action, s.step codec action = none := by
  rw [ended_iff_isFinal, isFinal_iff codec]

/-- The queue holds no more than it can. -/
theorem length_queue_le_of_run (h : Run codec (.start source size workers) steps s) :
    s.queue.length ≤ queueCapacity := by
  have hstep : ∀ {s t : State} {action : Action}, Step codec s action t →
      s.queue.length ≤ queueCapacity → t.queue.length ≤ queueCapacity := by
    intro s t action h hle
    cases h with
    | send hr hlistening hroom =>
      rw [List.length_append, List.length_singleton]
      omega
    | take hworker hqueue =>
      rw [hqueue, List.length_cons] at hle
      exact Nat.le_of_succ_le hle
    | _ => exact hle
  exact h.invariant hstep (Nat.zero_le _)

/-! ## No run is endless -/

/-- **No sequence of steps goes on forever.** -/
theorem not_forever (codec : Codec) (states : Nat → State) (actions : Nat → Action) :
    ¬ ∀ n, (states n).step codec (actions n) = some (states (n + 1)) := by
  intro hsteps
  have heffort : ∀ n, (states n).effort + n ≤ (states 0).effort := by
    intro n
    induction n with
    | zero => exact Nat.le_refl _
    | succ n ih =>
      have hlt := effort_lt_of_step (step_of_eq_some (hsteps n))
      omega
  have hlast := heffort ((states 0).effort + 1)
  omega

/-- And every run can be completed. -/
theorem exists_run_to_end (codec : Codec) (s : State) : ∃ more t, Run codec s more t ∧ t.Ended := by
  obtain ⟨more, hrun, hfinal⟩ := exists_run_of_effort_le codec (Nat.le_refl s.effort)
  exact ⟨more, _, hrun, ended_iff_isFinal.2 hfinal⟩

/-! ## With nobody listening -/

/-- A reader that is to close can do only that. -/
theorem eq_close_of_step {outcome : Except Error Unit} (h : Step codec s action t)
    (hreader : s.reader = .closing outcome) (hall : s.AllStopped) : action = .close := by
  cases h with
  | readSegment hr | readFailure hr | readEnd hr | send hr | refuse hr => simp [hr] at hreader
  | close => rfl
  | take hworker | leave hworker | accept hworker | reject hworker | file hworker
  | duplicate hworker | report hworker | stop hworker =>
    exact absurd hall (State.AllStopped.not_of_active hworker rfl)

/-- Where the queue is closed and all workers have stopped, nothing is
left. -/
theorem ended_of_allStopped {outcome : Except Error Unit} (hreader : s.reader = .closed outcome)
    (hall : s.AllStopped) : s.Ended :=
  ⟨⟨outcome, hreader⟩, fun worker hworker => Or.inr (hall worker hworker)⟩

/-- **A send that nobody waits for is refused, and the reader ends**,
however full the queue is. -/
theorem actions_of_allStopped {segment : Segment} (hreader : s.reader = .sending segment)
    (hall : s.AllStopped) (hrun : Run codec s more t) (hended : t.Ended) :
    more.map (·.2) = [.refuse, .close] ∧ t = { s with reader := .closed (.ok ()) } := by
  rcases hrun.head_cases with ⟨-, rfl⟩ | ⟨first, u, rest, rfl, hfirst, hrest⟩
  · obtain ⟨⟨outcome, hr⟩, -⟩ := hended
    simp [hreader] at hr
  obtain rfl := eq_refuse_of_step hfirst hreader hall.isListening_eq
  cases hfirst with
  | refuse hr hl =>
    rcases hrest.head_cases with ⟨-, rfl⟩ | ⟨second, v, last, rfl, hsecond, hlast⟩
    · obtain ⟨⟨outcome, hr'⟩, -⟩ := hended
      simp at hr'
    obtain rfl := eq_close_of_step hsecond rfl hall
    cases hsecond with
    | close hr' =>
      obtain rfl : _ = Except.ok () := (Reader.closing.inj hr').symm
      rcases hlast.head_cases with ⟨rfl, rfl⟩ | ⟨third, w, _, -, hthird, -⟩
      · exact ⟨rfl, rfl⟩
      · exact absurd hthird (not_step_of_isFinal (ended_iff_isFinal.1 (ended_of_allStopped rfl hall)))

/-! ## Every state of every run -/

/-- **The pool never gets stuck.** In every state of every run the queue
holds no more than it can, and either the queue is closed and all workers
have ended, or some action can happen. Each action lowers the effort, so a
run takes no more steps than there is effort at its start; none is endless
and each can be completed. A reader that is to send after all workers have
stopped has the send refused, closes the queue, and that is the end. -/
theorem never_stuck (hrun : Run codec (.start source size workers) steps s) :
    s.queue.length ≤ queueCapacity ∧
    (s.Ended ∨ ∃ action t, s.step codec action = some t) ∧
    (s.Ended → ∀ action, s.step codec action = none) ∧
    (∀ action t, s.step codec action = some t → t.effort < s.effort) ∧
    steps.length + s.effort ≤ (State.start source size workers).effort ∧
    (∀ (states : Nat → State) (actions : Nat → Action), states 0 = s →
      ¬ ∀ n, (states n).step codec (actions n) = some (states (n + 1))) ∧
    (∃ more t, Run codec s more t ∧ t.Ended) ∧
    ∀ segment, s.reader = .sending segment → s.AllStopped →
      ∀ more t, Run codec s more t → t.Ended →
        more.map (·.2) = [.refuse, .close] ∧ t = { s with reader := .closed (.ok ()) } := by
  refine ⟨length_queue_le_of_run hrun, ?_, (ended_iff codec).1, ?_,
    length_add_effort_le_of_run hrun, ?_, exists_run_to_end codec s, ?_⟩
  · by_cases hended : s.Ended
    · exact Or.inl hended
    · rw [ended_iff codec, Classical.not_forall] at hended
      obtain ⟨action, haction⟩ := hended
      obtain ⟨t, hstep⟩ := Option.ne_none_iff_exists'.1 haction
      exact Or.inr ⟨action, t, hstep⟩
  · intro action t hstep
    exact effort_lt_of_step (step_of_eq_some hstep)
  · intro states actions _
    exact not_forever codec states actions
  · intro segment hreader hall more t hmore hended
    exact actions_of_allStopped hreader hall hmore hended

/-- The only worker stops on the first of two segments, and the second is
refused when it is sent. -/
theorem actions_after_sole_failure :
    ∃ steps s, Run ((Codec.copying 1 1).refusing (fun _ => true) "no") (.start [.data [1, 2]] 1 1)
        steps s ∧
      steps.map (·.2) = [.read, .send, .read, .take 0, .hash 0, .report 0, .stop 0] ∧
      ∃ more t, Run ((Codec.copying 1 1).refusing (fun _ => true) "no") s more t ∧ t.Ended ∧
        more.map (·.2) = [.refuse, .close] := by
  obtain ⟨s, hafter, hreader, hall⟩ : ∃ s,
      (State.start [.data [1, 2]] 1 1).after? ((Codec.copying 1 1).refusing (fun _ => true) "no")
        [.read, .send, .read, .take 0, .hash 0, .report 0, .stop 0] = some s ∧
      s.reader = .sending ⟨1, [2]⟩ ∧ s.workers = [.stopped ⟨0, [1]⟩] := ⟨_, rfl, rfl, rfl⟩
  obtain ⟨steps, hrun, hactions⟩ := exists_run_of_after? hafter
  obtain ⟨-, -, -, -, -, -, ⟨more, t, hmore, hended⟩, hrefused⟩ := never_stuck hrun
  have hstopped : s.AllStopped := by
    intro worker hworker
    rw [hall, List.mem_singleton] at hworker
    exact ⟨_, hworker⟩
  obtain ⟨hlast, -⟩ := hrefused _ hreader hstopped more t hmore hended
  exact ⟨steps, s, hrun, hactions, more, t, hmore, hended, hlast⟩

end Pool

end ErasureDigest
