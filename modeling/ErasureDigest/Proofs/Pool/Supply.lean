import ErasureDigest.Proofs.Pool.Step
import ErasureDigest.Proofs.Stream.Delivery

/-!
# What the reader and the workers hold to

Two invariants that say when something ends. `Staffed`: a worker stops
only on an error it has reported, and leaves only a closed and empty
queue. `Supplied`: the reader gives the segments of the source in order and
closes the queue where the source ends, or because every worker has stopped
(`State.Abandoned`), which nothing undoes. Only at the end of the stream, or
given up, does it end (`State.ReadOut`).
-/

namespace ErasureDigest

namespace Pool

/-- Whether a worker has reported an error. -/
def Worker.hasReported : Worker → Bool
  | stopping _ | stopped _ => true
  | _ => false

/-- Whether the reader has closed the queue. -/
def Reader.isClosed : Reader → Bool
  | closed _ => true
  | _ => false

/-- **Every worker has stopped on an error.** -/
def State.AllStopped (s : State) : Prop :=
  ∀ worker ∈ s.workers, ∃ segment, worker = .stopped segment

/-- **The work has been given up**: every worker has stopped on an error
and the reader has ended without one. -/
def State.Abandoned (s : State) : Prop :=
  s.AllStopped ∧ (s.reader = .closing (.ok ()) ∨ s.reader = .closed (.ok ()))

variable {codec : Codec} {s t : State} {action : Action} {i : Nat} {worker worker' : Worker}

/-- What holds of all workers and of the one that is set holds of all. -/
theorem forall_mem_set {P : Worker → Prop} {workers : List Worker}
    (h : ∀ worker ∈ workers, P worker) (hworker : P worker) : ∀ other ∈ workers.set i worker, P other := by
  intro other hother
  rcases List.mem_or_eq_of_mem_set hother with hother | rfl
  · exact h other hother
  · exact hworker

/-- A worker that can still act has not stopped. -/
theorem State.AllStopped.not_of_active (hworker : s.workers[i]? = some worker)
    (hactive : worker.isListening = true) : ¬ s.AllStopped := by
  intro h
  obtain ⟨segment, rfl⟩ := h worker (List.mem_of_getElem? hworker)
  simp [Worker.isListening] at hactive

/-- Workers that have all stopped do not listen. -/
theorem State.AllStopped.isListening_eq (h : s.AllStopped) : s.isListening = false := by
  rw [State.isListening, List.any_eq_false]
  intro worker hworker
  obtain ⟨segment, rfl⟩ := h worker hworker
  simp [Worker.isListening]

/-- **Workers that have stopped stay so**, all of them together. -/
theorem allStopped_of_step (h : Step codec s action t) (hs : s.AllStopped) : t.AllStopped := by
  cases h with
  | readSegment hr | readFailure hr | readEnd hr | send hr | refuse hr | close hr => exact hs
  | take hworker | leave hworker | accept hworker | reject hworker | file hworker
  | duplicate hworker | report hworker | stop hworker =>
    exact absurd hs (State.AllStopped.not_of_active hworker rfl)

/-- **What is given up stays so**: the reader closes the queue, and nothing
else can happen. -/
theorem abandoned_of_step (h : Step codec s action t) (hs : s.Abandoned) : t.Abandoned := by
  obtain ⟨hstopped, hreader⟩ := hs
  cases h with
  | readSegment hr | readFailure hr | readEnd hr | send hr | refuse hr => simp [hr] at hreader
  | close hr =>
    refine ⟨hstopped, Or.inr ?_⟩
    simpa [hr] using hreader
  | take hworker | leave hworker | accept hworker | reject hworker | file hworker
  | duplicate hworker | report hworker | stop hworker =>
    exact absurd hstopped (State.AllStopped.not_of_active hworker rfl)

/-! ## The workers -/

/-- **When workers end**: having reported an error, or with nothing left
to do. -/
structure Staffed (s : State) : Prop where
  nonempty : s.workers ≠ []
  /-- Reports are not lost. -/
  reported : ∀ worker ∈ s.workers, worker.hasReported = true → s.slot.isSome = true
  /-- Nothing was left to the workers that are done. -/
  drained : .done ∈ s.workers → s.queue = [] ∧ s.reader.isClosed = true

namespace Staffed

/-- At the start all workers are idle. -/
theorem start (source : Source) (size workers : Nat) : Staffed (.start source size workers) where
  nonempty := by
    have : max 1 workers ≠ 0 := by omega
    simp [State.start, this]
  reported worker hworker := by
    obtain rfl := List.eq_of_mem_replicate hworker
    simp [Worker.hasReported]
  drained hdone := by simpa using List.eq_of_mem_replicate hdone

/-- The reader's steps leave the workers alone, and nobody is done while
the queue is open. -/
theorem of_open (hs : Staffed s) (hopen : s.reader.isClosed = false)
    (hworkers : t.workers = s.workers) (hslot : t.slot = s.slot) : Staffed t where
  nonempty := hworkers ▸ hs.nonempty
  reported := by rw [hworkers, hslot]; exact hs.reported
  drained hdone := by
    have := (hs.drained (hworkers ▸ hdone)).2
    simp [hopen] at this

/-- A worker's step changes that worker. -/
theorem of_set (hs : Staffed s) (hworkers : t.workers = s.workers.set i worker)
    (hslot : s.slot.isSome = true ∨ worker.hasReported = true → t.slot.isSome = true)
    (hdrained : worker = .done ∨ s.queue = [] ∧ s.reader.isClosed = true →
      t.queue = [] ∧ t.reader.isClosed = true) : Staffed t where
  nonempty := by
    rw [hworkers]
    simpa using hs.nonempty
  reported := by
    rw [hworkers]
    exact forall_mem_set (fun other hother h => hslot (Or.inl (hs.reported other hother h)))
      fun h => hslot (Or.inr h)
  drained hdone := by
    rw [hworkers] at hdone
    rcases List.mem_or_eq_of_mem_set hdone with hdone | hdone
    · exact hdrained (Or.inr (hs.drained hdone))
    · exact hdrained (Or.inl hdone.symm)

/-- Where every worker has stopped, an error was reported. -/
theorem isSome_slot_of_allStopped (hs : Staffed s) (h : s.AllStopped) : s.slot.isSome = true := by
  obtain ⟨worker, hworker⟩ := List.exists_mem_of_ne_nil _ hs.nonempty
  obtain ⟨segment, rfl⟩ := h worker hworker
  exact hs.reported _ hworker rfl

/-- While the queue is open, workers that no longer listen have stopped. -/
theorem allStopped_of_not_listening (hs : Staffed s) (hopen : s.reader.isClosed = false)
    (h : s.isListening = false) : s.AllStopped := by
  intro worker hworker
  have hended := List.any_eq_false.1 h worker hworker
  cases worker with
  | stopped segment => exact ⟨segment, rfl⟩
  | done =>
    have := (hs.drained hworker).2
    simp [hopen] at this
  | _ => simp [Worker.isListening] at hended

/-- And so have those that leave segments on the queue. -/
theorem allStopped_of_queue (hs : Staffed s) (hqueue : s.queue ≠ [])
    (h : s.isListening = false) : s.AllStopped := by
  intro worker hworker
  have hended := List.any_eq_false.1 h worker hworker
  cases worker with
  | stopped segment => exact ⟨segment, rfl⟩
  | done => exact absurd (hs.drained hworker).1 hqueue
  | _ => simp [Worker.isListening] at hended

/-- Every step keeps it. -/
theorem step (h : Step codec s action t) (hs : Staffed s) : Staffed t := by
  cases h with
  | readSegment hr | readFailure hr | readEnd hr | send hr | refuse hr | close hr =>
    exact hs.of_open (by rw [hr]; rfl) rfl rfl
  | take hworker hqueue =>
    -- there was a segment to take, so no worker was done
    exact hs.of_set rfl (by simp [Worker.hasReported]) (by simp [hqueue])
  | leave hworker hqueue hr =>
    refine hs.of_set rfl (by simp [Worker.hasReported, State.setWorker]) fun _ => ⟨hqueue, ?_⟩
    simp [State.setWorker, hr, Reader.isClosed]
  | stop hworker =>
    have hslot := hs.reported _ (List.mem_of_getElem? hworker) rfl
    exact hs.of_set rfl (fun _ => hslot) (by simp [State.setWorker])
  | report hworker => exact hs.of_set rfl (by simp) (by simp)
  | accept hworker | reject hworker | file hworker | duplicate hworker =>
    exact hs.of_set rfl (by simp [Worker.hasReported, State.setWorker]) (by simp [State.setWorker])

end Staffed

/-! ## The reader -/

/-- **When the reader ends**: the segments and the failure being those of
the source, it has given the first ones, the rest is still to come, and it
closes the queue at their end or when the work is given up. -/
structure Supplied (segments : List Segment) (failure : Option Error) (s : State) : Prop where
  read_le : s.segmenter.segmentsRead ≤ segments.length
  reading : s.reader = .reading →
    s.segmenter.drain = (segments.drop s.segmenter.segmentsRead, failure)
  /-- The segment in hand is the last one read. -/
  sending : ∀ segment, s.reader = .sending segment →
    s.segmenter.drain = (segments.drop s.segmenter.segmentsRead, failure) ∧
      segment.id + 1 = s.segmenter.segmentsRead ∧ segments[segment.id]? = some segment
  ended : ∀ outcome, s.reader = .closing outcome ∨ s.reader = .closed outcome →
    s.segmenter.segmentsRead = segments.length ∧ outcome = failure.elim (.ok ()) .error ∨
      s.Abandoned

namespace Supplied

variable {segments : List Segment} {failure : Option Error}

/-- At the start everything is still to come. -/
theorem start (source : Source) (size workers : Nat) :
    Supplied (Segmenter.start source size).drain.1 (Segmenter.start source size).drain.2
      (.start source size workers) where
  read_le := Nat.zero_le _
  reading _ := rfl
  sending segment h := by simp [State.start] at h
  ended outcome h := by simp [State.start] at h

/-- A worker's step leaves the reader alone. -/
theorem of_worker (hs : Supplied segments failure s) (hworker : s.workers[i]? = some worker)
    (hactive : worker.isListening = true) (hsegmenter : t.segmenter = s.segmenter)
    (hreader : t.reader = s.reader) : Supplied segments failure t where
  read_le := hsegmenter ▸ hs.read_le
  reading := by rw [hsegmenter, hreader]; exact hs.reading
  sending := by rw [hsegmenter, hreader]; exact hs.sending
  ended outcome h := by
    rw [hreader] at h
    rw [hsegmenter]
    rcases hs.ended outcome h with hend | habandoned
    · exact Or.inl hend
    · exact absurd habandoned.1 (State.AllStopped.not_of_active hworker hactive)

/-- Where nothing is to come, all segments have been given, and the reader
ends as the source does. -/
theorem of_end (hs : Supplied segments failure s) (hreader : s.reader = .reading)
    {segmenter : Segmenter} {ending : Option Error} (hdrain : s.segmenter.drain = ([], ending))
    (hread : segmenter.segmentsRead = s.segmenter.segmentsRead) :
    Supplied segments failure
      { s with segmenter := segmenter, reader := .closing (ending.elim (.ok ()) .error) } := by
  have hle := hs.read_le
  rw [hs.reading hreader, Prod.mk.injEq, List.drop_eq_nil_iff] at hdrain
  refine ⟨by simp only; omega, by simp, by simp, fun outcome houtcome => Or.inl ⟨?_, ?_⟩⟩
  · simp only
    omega
  · simpa [hdrain.2, eq_comm] using houtcome

/-- What comes next is the first of the segments to come. -/
theorem head_of_drop {n : Nat} {segment : Segment} {rest : List Segment}
    (h : segments.drop n = segment :: rest) :
    segments[n]? = some segment ∧ rest = segments.drop (n + 1) := by
  constructor
  · have := congrArg (·[0]?) h
    simpa using this
  · rw [← List.tail_drop, h, List.tail_cons]

/-- Every step keeps it. -/
theorem step (h : Step codec s action t) (hstaff : Staffed s) (hs : Supplied segments failure s) :
    Supplied segments failure t := by
  cases h with
  | @readSegment segment segmenter hr hnext =>
    -- what the segmenter gives is the next segment, and what it has left the others
    obtain ⟨hid, hread⟩ := Segmenter.segment_of_next hnext
    have hdrain := hs.reading hr
    rw [Segmenter.drain_of_segment hnext, Prod.mk.injEq] at hdrain
    obtain ⟨hsegment, hrest⟩ := head_of_drop hdrain.1.symm
    have hlt := (List.getElem?_eq_some_iff.1 hsegment).1
    refine ⟨by simp only; omega, by simp, ?_, by simp⟩
    intro other hother
    obtain rfl : segment = other := by simpa using hother
    simp only [hread, hid]
    exact ⟨Prod.ext hrest hdrain.2, trivial, hsegment⟩
  | readFailure hr hnext =>
    exact hs.of_end hr (Segmenter.drain_of_failure hnext) (Segmenter.failure_of_next hnext).2
  | readEnd hr hnext =>
    exact hs.of_end hr (Segmenter.drain_of_end hnext) (Segmenter.end_of_next hnext)
  | send hr hlistening hroom =>
    exact ⟨hs.read_le, fun _ => (hs.sending _ hr).1, by simp, by simp⟩
  | refuse hr hlistening =>
    -- the queue is open, so the workers have not left but stopped
    have hstopped := hstaff.allStopped_of_not_listening (by rw [hr]; rfl) hlistening
    exact ⟨hs.read_le, by simp, by simp, fun _ _ => Or.inr ⟨hstopped, Or.inl rfl⟩⟩
  | @close outcome hr =>
    refine ⟨hs.read_le, by simp, by simp, fun other hother => ?_⟩
    obtain rfl : outcome = other := by simpa using hother
    rcases hs.ended outcome (Or.inl hr) with hend | habandoned
    · exact Or.inl hend
    · have hclose : Step codec s .close { s with reader := .closed outcome } := .close hr
      exact Or.inr (abandoned_of_step hclose habandoned)
  | take hworker | leave hworker | accept hworker | reject hworker | file hworker
  | duplicate hworker | report hworker | stop hworker => exact hs.of_worker hworker rfl rfl rfl

end Supplied

/-- **The reader ends at the end of the stream**, or because the work is
given up. -/
def State.ReadOut (s : State) : Prop :=
  ∀ outcome, s.reader = .closing outcome ∨ s.reader = .closed outcome →
    s.segmenter.ended = true ∨ s.Abandoned

/-- At the start the reader has not ended. -/
theorem readOut_start (source : Source) (size workers : Nat) :
    (State.start source size workers).ReadOut := by
  intro outcome h
  simp [State.start] at h

/-- Every step keeps it. -/
theorem readOut_of_step (h : Step codec s action t) (hstaff : Staffed s) (hs : s.ReadOut) :
    t.ReadOut := by
  intro outcome houtcome
  cases h with
  | readSegment hr hnext => simp at houtcome
  | readFailure hr hnext => exact Or.inl (Segmenter.ended_of_next hnext (by simp))
  | readEnd hr hnext => exact Or.inl (Segmenter.ended_of_next hnext (by simp))
  | send hr => simp at houtcome
  | refuse hr hlistening =>
    have hstopped := hstaff.allStopped_of_not_listening (by rw [hr]; rfl) hlistening
    exact Or.inr ⟨hstopped, Or.inl rfl⟩
  | @close outcome' hr =>
    rcases hs outcome' (Or.inl hr) with hended | habandoned
    · exact Or.inl hended
    · have hclose : Step codec s .close { s with reader := .closed outcome' } := .close hr
      exact Or.inr (abandoned_of_step hclose habandoned)
  | take hworker | leave hworker | accept hworker | reject hworker | file hworker
  | duplicate hworker | report hworker | stop hworker =>
    rcases hs outcome houtcome with hended | habandoned
    · exact Or.inl hended
    · exact absurd habandoned.1 (State.AllStopped.not_of_active hworker rfl)

/-- **So every run keeps it.** -/
theorem readOut_of_run {source : Source} {size workers : Nat} {steps : List (State × Action)}
    (h : Run codec (.start source size workers) steps s) : s.ReadOut := by
  have hboth : Staffed s ∧ s.ReadOut :=
    h.invariant (motive := fun s => Staffed s ∧ s.ReadOut)
      (fun hstep hs => ⟨hs.1.step hstep, readOut_of_step hstep hs.1 hs.2⟩)
      ⟨.start source size workers, readOut_start source size workers⟩
  exact hboth.2

end Pool

end ErasureDigest
