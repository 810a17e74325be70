import ErasureDigest.Proofs.Pool.Results

/-!
# No segment is lost

`State.spots` lists where the segment with a number is, each place as often
as the segment is there. The segments that were dropped on a refused send
are read off the run (`refusals`). Together they are one for every number
given out, and none for any other (`places_of_run`), whatever the steps; so
a number given out is in exactly one place. What being there says about the
segment is `Spot.Holds`: a worker stops only with a segment the codec
rejects, and segments are discarded or dropped only after every worker has
stopped (`conserved_of_run`).
-/

namespace ErasureDigest

namespace Pool

/-- Where a segment can be. -/
inductive Spot
  /-- With the reader, who is to send it. -/
  | reader
  /-- On the queue. -/
  | queue
  /-- With a worker, who hashes it or files its result. -/
  | worker
  /-- In the ledger, by its result. -/
  | ledger
  /-- With a worker, who stops or has stopped on its error. -/
  | rejected
  /-- On a queue that nobody listens to any more. -/
  | discarded
  /-- Nowhere: its send was refused. -/
  | refused
  deriving DecidableEq, Repr

/-- What it means that a worker holds a segment. -/
def Worker.spot : Worker → Spot
  | failing .. | stopping _ | stopped _ => .rejected
  | _ => .worker

/-- The segment that an action drops. -/
def State.refusal? (s : State) : Action → Option Segment
  | .refuse => s.reader.segment?
  | _ => none

/-- The segments dropped during a run, in order. -/
def refusals (steps : List (State × Action)) : List Segment :=
  steps.filterMap fun step => step.1.refusal? step.2

/-- **Where the segment with a number is**, each place as often as it is
there, after the sends of some segments were refused. -/
def State.spots (s : State) (refused : List Segment) (id : Nat) : List Spot :=
  List.replicate (copies id s.reader.segment?.toList) .reader ++
    List.replicate (copies id s.queue) (if s.isListening then .queue else .discarded) ++
    s.workers.flatMap (fun worker => List.replicate (worker.copies id) worker.spot) ++
    List.replicate (s.ledger.find? id).toList.length .ledger ++
    List.replicate (copies id refused) .refused

/-- What holds of a segment, and of the pool, where the segment is at a
spot. -/
def Spot.Holds (codec : Codec) (s : State) (segment : Segment) : Spot → Prop
  | reader | queue | worker => True
  | ledger => codec.Accepts segment.bytes
  | rejected => ∃ error, codec.sums segment.bytes = .error error
  | discarded | refused => s.AllStopped

/-- The segments that the reader, the queue and the workers hold. -/
def State.held (s : State) : List Segment :=
  s.reader.segment?.toList ++ s.queue ++ s.workers.filterMap Worker.segment?

variable {codec : Codec} {s t : State} {action : Action} {i id : Nat} {worker : Worker}
variable {steps : List (State × Action)} {segments refused : List Segment}
variable {failure : Option Error} {source : Source} {size workers : Nat}

@[simp] theorem refusals_append (before after : List (State × Action)) :
    refusals (before ++ after) = refusals before ++ refusals after :=
  List.filterMap_append

theorem refusals_singleton (s : State) (action : Action) :
    refusals [(s, action)] = (s.refusal? action).toList := by
  cases hrefusal : s.refusal? action <;> simp [refusals, hrefusal]

/-- The list has as many entries as the segment has places. -/
theorem length_spots (s : State) (refused : List Segment) (id : Nat) :
    (s.spots refused id).length = s.places id + copies id refused := by
  simp only [State.spots, State.places, List.length_append, List.length_replicate,
    List.length_flatMap]

/-! ## One place for each number -/

/-- Only a refused send drops a segment that the reader holds while nobody
listens. -/
theorem eq_refuse_of_step {segment : Segment} (h : Step codec s action t)
    (hreader : s.reader = .sending segment) (hlistening : s.isListening = false) :
    action = .refuse := by
  have hactive : ∀ {i : Nat} {worker : Worker}, s.workers[i]? = some worker →
      worker.isListening = true → False := by
    intro i worker hworker hactive
    have hended := List.any_eq_false.1 hlistening worker (List.mem_of_getElem? hworker)
    exact hended hactive
  cases h with
  | readSegment hr | readFailure hr | readEnd hr | close hr => simp [hr] at hreader
  | send hr hl => simp [hl] at hlistening
  | refuse => rfl
  | take hworker | leave hworker | accept hworker | reject hworker | file hworker
  | duplicate hworker | report hworker | stop hworker => exact (hactive hworker rfl).elim

/-- **What a step does to the number of places**, a refused send counted as
one: a number that is given out gets one. -/
theorem places_add_refusal_of_step (h : Step codec s action t) (id : Nat) :
    t.places id + copies id (s.refusal? action).toList +
        (if id < s.segmenter.segmentsRead then 1 else 0) =
      s.places id + if id < t.segmenter.segmentsRead then 1 else 0 := by
  by_cases haction : action = .refuse
  · subst haction
    cases h with
    | @refuse segment hr hlistening =>
      simp only [State.places, State.refusal?, hr, Reader.segment?, Option.toList, copies_nil]
      omega
  · have hnone : s.refusal? action = none := by
      cases action <;> first | rfl | exact absurd rfl haction
    rw [hnone, Option.toList, copies_nil]
    rcases places_of_step h with
      ⟨hread, hplaces⟩ | ⟨-, hread, hplaces⟩ | ⟨segment, hr, hlistening, -, -⟩
    · rw [hplaces, hread]
      omega
    · -- the number given out is the next one, which had no place
      rw [hplaces, hread]
      rcases Nat.lt_trichotomy id s.segmenter.segmentsRead with hlt | heq | hgt
      · rw [if_neg (by omega), if_pos hlt, if_pos (by omega)]
      · rw [if_pos heq.symm, if_neg (by omega), if_pos (by omega)]
      · rw [if_neg (by omega), if_neg (by omega), if_neg (by omega)]
    · exact absurd (eq_refuse_of_step h hr hlistening) haction

/-- **Every number given out has one place, and the others have none.** -/
theorem places_of_run (h : Run codec (.start source size workers) steps s) (id : Nat) :
    s.places id + copies id (refusals steps) =
      if id < s.segmenter.segmentsRead then 1 else 0 := by
  induction h with
  | refl =>
    have hfresh := (Counted.start source size workers).fresh id (Nat.zero_le id)
    simpa [refusals, State.start, Segmenter.start] using hfresh
  | @snoc steps t u action _ hlast ih =>
    have hstep := places_add_refusal_of_step hlast id
    rw [refusals_append, copies_append, refusals_singleton]
    omega

/-- A segment is dropped only after all workers have stopped. -/
theorem allStopped_of_refusals (h : Run codec (.start source size workers) steps s)
    (hrefused : refusals steps ≠ []) : s.AllStopped := by
  induction h with
  | refl => exact absurd rfl hrefused
  | @snoc steps t u action hrun hlast ih =>
    by_cases hearlier : refusals steps = []
    · rw [refusals_append, hearlier, List.nil_append, refusals_singleton] at hrefused
      have haction : action = .refuse := by
        cases action <;> first | rfl | exact absurd rfl hrefused
      subst haction
      cases hlast with
      | refuse hr hlistening =>
        have hstaffed := (sound_of_run hrun).staffed
        exact hstaffed.allStopped_of_not_listening (by rw [hr]; rfl) hlistening
    · exact allStopped_of_step hlast (ih hearlier)

/-! ## What the places say -/

/-- What is held is a segment of the source, under its own number. -/
theorem isOf_of_mem_held (hs : Sound codec segments failure s) :
    ∀ segment ∈ s.held, segment.IsOf segments := by
  intro segment hsegment
  rw [State.held, List.mem_append, List.mem_append] at hsegment
  rcases hsegment with (hreader | hqueue) | hworker
  · cases hr : s.reader with
    | sending other =>
      obtain rfl : segment = other := by simpa [hr, Reader.segment?] using hreader
      exact (hs.supplied.sending segment hr).2.2
    | _ => simp [hr, Reader.segment?] at hreader
  · exact hs.genuine.queue segment hqueue
  · obtain ⟨worker, hmem, hholds⟩ := List.mem_filterMap.1 hworker
    have hgenuine := hs.genuine.workers worker hmem
    cases worker with
    | idle | done => simp [Worker.segment?] at hholds
    | hashing other =>
      obtain rfl : other = segment := by simpa [Worker.segment?] using hholds
      exact hgenuine
    | filing other | failing other | stopping other | stopped other =>
      obtain rfl : other = segment := by simpa [Worker.segment?] using hholds
      exact hgenuine.1

/-- A worker stops only with a segment that the codec rejects. -/
theorem exists_error_of_rejected (hs : Sound codec segments failure s) (hworker : worker ∈ s.workers)
    (hcopies : worker.copies id ≠ 0) (hspot : worker.spot = .rejected) :
    ∃ segment, segments[id]? = some segment ∧ ∃ error, codec.sums segment.bytes = .error error := by
  have hgenuine := hs.genuine.workers worker hworker
  have hid : ∀ segment : Segment, copies id [segment] ≠ 0 → segment.id = id := by
    intro segment hne
    rw [copies_singleton] at hne
    by_cases heq : segment.id = id
    · exact heq
    · exact absurd (if_neg heq) hne
  cases worker with
  | idle | hashing | filing | done => simp [Worker.spot] at hspot
  | failing segment error =>
    obtain ⟨hsegment, hsums⟩ := hgenuine
    exact ⟨segment, hid segment hcopies ▸ hsegment, error, hsums⟩
  | stopping segment =>
    obtain ⟨hsegment, hsums⟩ := hgenuine
    exact ⟨segment, hid segment hcopies ▸ hsegment, hsums⟩
  | stopped segment =>
    obtain ⟨hsegment, hsums⟩ := hgenuine
    exact ⟨segment, hid segment hcopies ▸ hsegment, hsums⟩

/-- **Where a segment is says what became of it.** -/
theorem holds_of_mem_spots (hs : Sound codec segments failure s)
    (hrefused : refused ≠ [] → s.AllStopped) {segment : Segment}
    (hsegment : segments[id]? = some segment) {spot : Spot} (h : spot ∈ s.spots refused id) :
    spot.Holds codec s segment := by
  simp only [State.spots, List.mem_append, List.mem_replicate, List.mem_flatMap] at h
  rcases h with (((⟨-, rfl⟩ | ⟨hcopies, rfl⟩) | ⟨worker, hworker, hcopies, rfl⟩) | ⟨hlength, rfl⟩) |
    ⟨hcopies, rfl⟩
  · trivial
  · -- on the queue: to be taken, or left over by workers that have all stopped
    cases hlistening : s.isListening with
    | true => trivial
    | false =>
      refine hs.staffed.allStopped_of_queue (fun hqueue => hcopies ?_) hlistening
      rw [hqueue, copies_nil]
  · cases hspot : worker.spot with
    | rejected =>
      obtain ⟨other, hother, herror⟩ := exists_error_of_rejected hs hworker hcopies hspot
      obtain rfl := Option.some.inj (hsegment.symm.trans hother)
      exact herror
    | worker => trivial
    | _ => cases worker <;> simp [Worker.spot] at hspot
  · obtain ⟨entry, hentry⟩ : ∃ entry, s.ledger.find? id = some entry := by
      cases hfind : s.ledger.find? id with
      | none => simp [hfind] at hlength
      | some entry => exact ⟨entry, rfl⟩
    obtain ⟨other, hother, hfor⟩ := hs.genuine.ledger id entry hentry
    obtain rfl := Option.some.inj (hsegment.symm.trans hother)
    exact ⟨entry.sums, hfor.1⟩
  · refine hrefused fun hnil => hcopies ?_
    rw [hnil, copies_nil]

/-- **Every segment that was read is in exactly one place**, and what is
held are the segments of the source. -/
structure Conserved (codec : Codec) (segments : List Segment) (steps : List (State × Action))
    (s : State) : Prop where
  /-- The numbers given out are those below the number of segments read. -/
  fresh : ∀ id, s.segmenter.segmentsRead ≤ id → s.spots (refusals steps) id = []
  once : ∀ id < s.segmenter.segmentsRead, ∃ segment spot, segments[id]? = some segment ∧
    s.spots (refusals steps) id = [spot] ∧ spot.Holds codec s segment
  genuine : ∀ segment ∈ s.held, segment.IsOf segments

/-- **In every state of every run.** -/
theorem conserved_of_run (h : Run codec (.start source size workers) steps s) :
    Conserved codec (Segmenter.start source size).drain.1 steps s := by
  have hs := sound_of_run h
  have hlength : ∀ id, (s.spots (refusals steps) id).length =
      if id < s.segmenter.segmentsRead then 1 else 0 := fun id => by
    rw [length_spots, places_of_run h]
  refine ⟨fun id hid => ?_, fun id hid => ?_, isOf_of_mem_held hs⟩
  · rw [← List.length_eq_zero_iff, hlength, if_neg (by omega)]
  · have hone := hlength id
    rw [if_pos hid] at hone
    obtain ⟨spot, hspot⟩ := List.length_eq_one_iff.1 hone
    have hlt : id < (Segmenter.start source size).drain.1.length :=
      Nat.lt_of_lt_of_le hid hs.supplied.read_le
    have hsegment := List.getElem?_eq_getElem hlt
    refine ⟨_, spot, hsegment, hspot, ?_⟩
    exact holds_of_mem_spots hs (allStopped_of_refusals h) hsegment (hspot ▸ List.mem_singleton_self _)

end Pool

end ErasureDigest
