import ErasureDigest.Hashing.Pool.Run

/-!
# The steps of the pool

`Step` says what each action can do to the pool and under which conditions:
it is `State.step` turned around (`step_iff`), and what later files know
about actions they know from its cases. A `Run` is any sequence of steps,
kept with the states it went through, so that what a run reported can be
read off it. The slot holds the first of the reports (`slot_of_run`).
-/

namespace ErasureDigest

namespace Pool

/-- **What one action can do.** A worker's step changes that worker, and
at most one other thing. -/
inductive Step (codec : Codec) (s : State) : Action → State → Prop
  /-- The source gives a segment. -/
  | readSegment {segment : Segment} {segmenter : Segmenter} (hreader : s.reader = .reading)
      (hnext : s.segmenter.next = (some (.ok segment), segmenter)) :
      Step codec s .read { s with segmenter := segmenter, reader := .sending segment }
  /-- The source fails. -/
  | readFailure {error : Error} {segmenter : Segmenter} (hreader : s.reader = .reading)
      (hnext : s.segmenter.next = (some (.error error), segmenter)) :
      Step codec s .read { s with segmenter := segmenter, reader := .closing (.error error) }
  /-- The source has ended. -/
  | readEnd {segmenter : Segmenter} (hreader : s.reader = .reading)
      (hnext : s.segmenter.next = (none, segmenter)) :
      Step codec s .read { s with segmenter := segmenter, reader := .closing (.ok ()) }
  /-- The queue takes the segment. -/
  | send {segment : Segment} (hreader : s.reader = .sending segment)
      (hlistening : s.isListening = true) (hroom : s.queue.length < queueCapacity) :
      Step codec s .send { s with queue := s.queue ++ [segment], reader := .reading }
  /-- Nobody listens, and the segment is dropped. -/
  | refuse {segment : Segment} (hreader : s.reader = .sending segment)
      (hlistening : s.isListening = false) :
      Step codec s .refuse { s with reader := .closing (.ok ()) }
  /-- The reader closes the queue. -/
  | close {outcome : Except Error Unit} (hreader : s.reader = .closing outcome) :
      Step codec s .close { s with reader := .closed outcome }
  /-- A worker takes the oldest segment. -/
  | take {i : Nat} {segment : Segment} {queue : List Segment}
      (hworker : s.workers[i]? = some .idle) (hqueue : s.queue = segment :: queue) :
      Step codec s (.take i)
        { s with queue := queue, workers := s.workers.set i (.hashing segment) }
  /-- A worker finds the queue closed and empty. -/
  | leave {i : Nat} {outcome : Except Error Unit} (hworker : s.workers[i]? = some .idle)
      (hqueue : s.queue = []) (hreader : s.reader = .closed outcome) :
      Step codec s (.leave i) (s.setWorker i .done)
  /-- The codec accepts a segment. -/
  | accept {i : Nat} {segment : Segment} {sums : SegmentSums}
      (hworker : s.workers[i]? = some (.hashing segment))
      (hsums : codec.sums segment.bytes = .ok sums) :
      Step codec s (.hash i) (s.setWorker i (.filing segment sums))
  /-- The codec rejects a segment. -/
  | reject {i : Nat} {segment : Segment} {error : Error}
      (hworker : s.workers[i]? = some (.hashing segment))
      (hsums : codec.sums segment.bytes = .error error) :
      Step codec s (.hash i) (s.setWorker i (.failing segment error))
  /-- A result is filed. -/
  | file {i : Nat} {segment : Segment} {sums : SegmentSums}
      (hworker : s.workers[i]? = some (.filing segment sums))
      (hfiled : s.ledger.find? segment.id = none) :
      Step codec s (.file i)
        { s with
          ledger := s.ledger.put segment.id ⟨sums, segment.bytes.length⟩
          workers := s.workers.set i .idle }
  /-- A result was filed under the number before. -/
  | duplicate {i : Nat} {segment : Segment} {sums : SegmentSums}
      (hworker : s.workers[i]? = some (.filing segment sums))
      (hfiled : (s.ledger.find? segment.id).isSome = true) :
      Step codec s (.file i) (s.setWorker i (.failing segment (.duplicateSegment segment.id)))
  /-- A worker reports an error, which the slot keeps if it is the first. -/
  | report {i : Nat} {segment : Segment} {error : Error}
      (hworker : s.workers[i]? = some (.failing segment error)) :
      Step codec s (.report i)
        { s with
          slot := s.slot.or (some error)
          workers := s.workers.set i (.stopping segment) }
  /-- A worker that reported stops. -/
  | stop {i : Nat} {segment : Segment} (hworker : s.workers[i]? = some (.stopping segment)) :
      Step codec s (.stop i) (s.setWorker i (.stopped segment))

section Step

variable {codec : Codec} {s t : State} {action : Action}

/-- A read is one of three steps. -/
theorem step_read (hreader : s.reader = .reading) : Step codec s .read s.read := by
  rw [State.read]
  rcases hnext : s.segmenter.next with ⟨- | error | segment, segmenter⟩
  · exact Step.readEnd hreader hnext
  · exact Step.readFailure hreader hnext
  · exact Step.readSegment hreader hnext

/-- Filing is one of two. -/
theorem step_file {i : Nat} {segment : Segment} {sums : SegmentSums}
    (hworker : s.workers[i]? = some (.filing segment sums)) :
    Step codec s (.file i) (s.fileResult i segment sums) := by
  cases hfiled : s.ledger.find? segment.id with
  | none =>
    simp only [State.fileResult, hfiled]
    exact Step.file hworker hfiled
  | some entry =>
    simp only [State.fileResult, hfiled]
    exact Step.duplicate hworker (by rw [hfiled]; rfl)

/-- What happens is a step. -/
theorem step_of_eq_some (h : s.step codec action = some t) : Step codec s action t := by
  cases action with
  | read =>
    simp only [State.step] at h
    split at h
    · next hreader => exact Option.some.inj h ▸ step_read hreader
    · simp at h
  | send =>
    simp only [State.step] at h
    split at h
    · next segment hreader =>
      split at h
      · next hroom =>
        simp only [Bool.and_eq_true, decide_eq_true_eq] at hroom
        exact Option.some.inj h ▸ Step.send hreader hroom.1 hroom.2
      · simp at h
    · simp at h
  | refuse =>
    simp only [State.step] at h
    split at h
    · next segment hreader =>
      split at h
      · simp at h
      · next hlistening =>
        rw [Bool.not_eq_true] at hlistening
        exact Option.some.inj h ▸ Step.refuse hreader hlistening
    · simp at h
  | close =>
    simp only [State.step] at h
    split at h
    · next outcome hreader => exact Option.some.inj h ▸ Step.close hreader
    · simp at h
  | take i =>
    simp only [State.step] at h
    split at h
    · next segment queue hworker hqueue => exact Option.some.inj h ▸ Step.take hworker hqueue
    · simp at h
  | leave i =>
    simp only [State.step] at h
    split at h
    · next outcome hworker hqueue hreader =>
      exact Option.some.inj h ▸ Step.leave hworker hqueue hreader
    · simp at h
  | hash i =>
    simp only [State.step] at h
    split at h
    · next segment hworker =>
      split at h
      · next sums hsums => exact Option.some.inj h ▸ Step.accept hworker hsums
      · next error hsums => exact Option.some.inj h ▸ Step.reject hworker hsums
    · simp at h
  | file i =>
    simp only [State.step] at h
    split at h
    · next segment sums hworker => exact Option.some.inj h ▸ step_file hworker
    · simp at h
  | report i =>
    simp only [State.step] at h
    split at h
    · next segment error hworker => exact Option.some.inj h ▸ Step.report hworker
    · simp at h
  | stop i =>
    simp only [State.step] at h
    split at h
    · next segment hworker => exact Option.some.inj h ▸ Step.stop hworker
    · simp at h

/-- And a step can happen. -/
theorem Step.eq_some (h : Step codec s action t) : s.step codec action = some t := by
  cases h with
  | readSegment hreader hnext => simp [State.step, State.read, hreader, hnext]
  | readFailure hreader hnext => simp [State.step, State.read, hreader, hnext]
  | readEnd hreader hnext => simp [State.step, State.read, hreader, hnext]
  | send hreader hlistening hroom => simp [State.step, hreader, hlistening, hroom]
  | refuse hreader hlistening => simp [State.step, hreader, hlistening]
  | close hreader => simp [State.step, hreader]
  | take hworker hqueue => simp [State.step, hworker, hqueue]
  | leave hworker hqueue hreader => simp [State.step, hworker, hqueue, hreader]
  | accept hworker hsums => simp [State.step, hworker, hsums]
  | reject hworker hsums => simp [State.step, hworker, hsums]
  | file hworker hfiled => simp [State.step, State.fileResult, hworker, hfiled]
  | duplicate hworker hfiled =>
    simp [State.step, State.fileResult, State.setWorker, hworker, hfiled]
  | report hworker => simp [State.step, hworker]
  | stop hworker => simp [State.step, hworker]

/-- **The steps are what `State.step` does**, case by case. -/
theorem step_iff : s.step codec action = some t ↔ Step codec s action t :=
  ⟨step_of_eq_some, Step.eq_some⟩

end Step

/-! ## Runs -/

/-- **Any sequence of steps**, with the state before each of them. -/
inductive Run (codec : Codec) (s : State) : List (State × Action) → State → Prop
  | refl : Run codec s [] s
  | snoc {steps : List (State × Action)} {t u : State} {action : Action} :
      Run codec s steps t → Step codec t action u → Run codec s (steps ++ [(t, action)]) u

/-- The error that an action reports. -/
def State.report? (s : State) : Action → Option Error
  | .report i =>
    match s.workers[i]? with
    | some (.failing _ error) => some error
    | _ => none
  | _ => none

/-- The errors reported during a run, in order. -/
def reports (steps : List (State × Action)) : List Error :=
  steps.filterMap fun step => step.1.report? step.2

variable {codec : Codec} {s t u : State} {action : Action} {steps : List (State × Action)}

/-- A run can be taken up at its front. -/
theorem Run.cons (hstep : Step codec s action t) (h : Run codec t steps u) :
    Run codec s ((s, action) :: steps) u := by
  induction h with
  | refl => exact Run.snoc .refl hstep
  | snoc _ hlast ih => exact Run.snoc ih hlast

/-- And taken apart there. -/
theorem Run.head_cases (h : Run codec s steps u) :
    steps = [] ∧ s = u ∨ ∃ action t rest, steps = (s, action) :: rest ∧ Step codec s action t ∧
      Run codec t rest u := by
  induction h with
  | refl => exact Or.inl ⟨rfl, rfl⟩
  | @snoc steps t u last _ hlast ih =>
    rcases ih with ⟨rfl, rfl⟩ | ⟨action, first, rest, rfl, hfirst, hrest⟩
    · exact Or.inr ⟨last, u, [], rfl, hlast, Run.refl⟩
    · exact Or.inr ⟨action, first, rest ++ [(t, last)], rfl, hfirst, hrest.snoc hlast⟩

/-- What every step keeps, every run keeps. -/
theorem Run.invariant {motive : State → Prop}
    (hstep : ∀ {s t : State} {action : Action}, Step codec s action t → motive s → motive t)
    (h : Run codec s steps t) (hs : motive s) : motive t := by
  induction h with
  | refl => exact hs
  | snoc _ hlast ih => exact hstep hlast ih

/-- The slot changes only by a report, and only from empty. -/
theorem slot_of_step (h : Step codec s action t) : t.slot = s.slot.or (s.report? action) := by
  cases h with
  | report hworker => simp [State.report?, hworker]
  | _ => simp [State.report?, State.setWorker]

@[simp] theorem reports_append (before after : List (State × Action)) :
    reports (before ++ after) = reports before ++ reports after :=
  List.filterMap_append

/-- **The slot holds the first report** of a run that starts without one. -/
theorem slot_of_run (h : Run codec s steps t) (hslot : s.slot = none) :
    t.slot = (reports steps).head? := by
  induction h with
  | refl => simpa [reports] using hslot
  | @snoc steps t u action _ hlast ih =>
    have hnew : (reports [(t, action)]).head? = t.report? action := by
      cases hreport : t.report? action <;> simp [reports, hreport]
    rw [slot_of_step hlast, ih, reports_append, List.head?_append, hnew]

end Pool

end ErasureDigest
