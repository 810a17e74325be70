import ErasureDigest.Proofs.Pool.Ledger
import ErasureDigest.Proofs.Pool.Progress
import ErasureDigest.Proofs.Pool.Supply

/-!
# Where the segments are

A segment that was read is with the reader, on the queue, with a worker or
filed in the ledger. `State.places` counts where the segment with a number
is. Only reading puts a segment anywhere new and only a refused send drops
one (`places_of_step`), so every number given out is in one place, but for
the one that is dropped when the work is given up (`Counted`).
-/

namespace ErasureDigest

-- a sum of numbers starts at the literal zero, whatever else is imported
attribute [local instance (1100)] Zero.ofOfNat0

namespace Pool

/-- The segment that the reader holds. -/
def Reader.segment? : Reader → Option Segment
  | sending segment => some segment
  | _ => none

/-- The segment that a worker holds, or has stopped on. -/
def Worker.segment? : Worker → Option Segment
  | hashing segment | filing segment _ | failing segment _ | stopping segment
  | stopped segment => some segment
  | idle | done => none

/-- How many of some segments have a number. -/
def copies (id : Nat) (segments : List Segment) : Nat :=
  segments.countP (·.id == id)

/-- How many segments with a number a worker holds. -/
def Worker.copies (id : Nat) (worker : Worker) : Nat :=
  Pool.copies id worker.segment?.toList

/-- **In how many places the segment with a number is.** -/
def State.places (s : State) (id : Nat) : Nat :=
  copies id s.reader.segment?.toList + copies id s.queue +
    (s.workers.map (Worker.copies id)).sum + (s.ledger.find? id).toList.length

section Copies

variable {id : Nat} {segment : Segment} {segments : List Segment}

@[simp] theorem copies_nil (id : Nat) : copies id [] = 0 := rfl

theorem copies_cons :
    copies id (segment :: segments) = copies id [segment] + copies id segments := by
  rw [copies, copies, copies, List.countP_cons, List.countP_cons, List.countP_nil]
  omega

theorem copies_append (other : List Segment) :
    copies id (segments ++ other) = copies id segments + copies id other :=
  List.countP_append

/-- A segment counts under its own number. -/
theorem copies_singleton (id : Nat) (segment : Segment) :
    copies id [segment] = if segment.id = id then 1 else 0 := by
  simp [copies, List.countP_cons]

end Copies

variable {codec : Codec} {s t : State} {action : Action} {i id : Nat} {worker worker' : Worker}

/-- A worker that goes on with its segment moves nothing. -/
theorem places_setWorker (hworker : s.workers[i]? = some worker)
    (hsegment : worker'.segment? = worker.segment?) (id : Nat) :
    (s.setWorker i worker').places id = s.places id := by
  have hsum := sum_map_set (f := Worker.copies id) hworker worker'
  have hcopies : worker'.copies id = worker.copies id := by rw [Worker.copies, hsegment]; rfl
  simp only [State.places, State.setWorker]
  omega

/-- **What a step does to the places**: nothing, or a segment is read and
is with the reader, or the one with the reader is dropped. -/
theorem places_of_step (h : Step codec s action t) :
    (t.segmenter.segmentsRead = s.segmenter.segmentsRead ∧ ∀ id, t.places id = s.places id) ∨
    (s.reader = .reading ∧ t.segmenter.segmentsRead = s.segmenter.segmentsRead + 1 ∧
      ∀ id, t.places id = s.places id + if s.segmenter.segmentsRead = id then 1 else 0) ∨
    (∃ segment, s.reader = .sending segment ∧ s.isListening = false ∧
      t = { s with reader := .closing (.ok ()) } ∧
      ∀ id, t.places id + (if segment.id = id then 1 else 0) = s.places id) := by
  cases h with
  | @readSegment segment segmenter hr hnext =>
    obtain ⟨hid, hread⟩ := Segmenter.segment_of_next hnext
    refine Or.inr (Or.inl ⟨hr, hread, fun id => ?_⟩)
    simp only [State.places, hr, Reader.segment?, Option.toList, copies_singleton, copies_nil, hid]
    omega
  | readFailure hr hnext =>
    refine Or.inl ⟨(Segmenter.failure_of_next hnext).2, fun id => ?_⟩
    simp [State.places, hr, Reader.segment?]
  | readEnd hr hnext =>
    refine Or.inl ⟨Segmenter.end_of_next hnext, fun id => ?_⟩
    simp [State.places, hr, Reader.segment?]
  | send hr hlistening hroom =>
    refine Or.inl ⟨rfl, fun id => ?_⟩
    simp only [State.places, hr, Reader.segment?, Option.toList, copies_append, copies_nil]
    omega
  | @refuse segment hr hlistening =>
    refine Or.inr (Or.inr ⟨segment, hr, hlistening, rfl, fun id => ?_⟩)
    simp only [State.places, hr, Reader.segment?, Option.toList, copies_singleton, copies_nil]
    omega
  | close hr =>
    refine Or.inl ⟨rfl, fun id => ?_⟩
    simp [State.places, hr, Reader.segment?]
  | @take i segment queue hworker hqueue =>
    refine Or.inl ⟨rfl, fun id => ?_⟩
    have hsum := sum_map_set (f := Worker.copies id) hworker (.hashing segment)
    have hqueued : copies id s.queue = copies id [segment] + copies id queue := by
      rw [hqueue, copies_cons]
    simp only [Worker.copies, Worker.segment?, Option.toList, copies_nil] at hsum
    simp only [State.places]
    omega
  | leave hworker => exact Or.inl ⟨rfl, places_setWorker hworker rfl⟩
  | accept hworker => exact Or.inl ⟨rfl, places_setWorker hworker rfl⟩
  | reject hworker => exact Or.inl ⟨rfl, places_setWorker hworker rfl⟩
  | @file i segment sums hworker hfiled =>
    refine Or.inl ⟨rfl, fun id => ?_⟩
    have hsum := sum_map_set (f := Worker.copies id) hworker .idle
    simp only [Worker.copies, Worker.segment?, Option.toList, copies_nil, copies_singleton] at hsum
    simp only [State.places, Ledger.find?_put]
    -- the segment goes from the worker to the ledger, and the other numbers stay
    by_cases hid : id = segment.id
    · subst hid
      simp only [hfiled, if_true, Option.toList, List.length_cons, List.length_nil] at hsum ⊢
      omega
    · rw [if_neg fun h => hid h.symm] at hsum
      rw [if_neg hid]
      omega
  | duplicate hworker => exact Or.inl ⟨rfl, places_setWorker hworker rfl⟩
  | @report i segment error hworker =>
    have hplaces : ∀ id, (s.setWorker i (.stopping segment)).places id = s.places id :=
      places_setWorker hworker rfl
    exact Or.inl ⟨rfl, hplaces⟩
  | stop hworker => exact Or.inl ⟨rfl, places_setWorker hworker rfl⟩

/-- What a worker holds is somewhere. -/
theorem copies_le_places (hworker : s.workers[i]? = some worker) (id : Nat) :
    worker.copies id + (s.ledger.find? id).toList.length ≤ s.places id := by
  have hsum := sum_map_set (f := Worker.copies id) hworker .idle
  have hidle : Worker.copies id .idle = 0 := rfl
  simp only [State.places]
  omega

/-- **Every number given out is in one place**, or it was dropped last of
all when the work was given up; the others are nowhere. -/
structure Counted (s : State) : Prop where
  fresh : ∀ id, s.segmenter.segmentsRead ≤ id → s.places id = 0
  once : ∀ id < s.segmenter.segmentsRead, s.places id = 1 ∨
    s.places id = 0 ∧ id + 1 = s.segmenter.segmentsRead ∧ s.Abandoned

namespace Counted

/-- At the start there is no segment. -/
theorem start (source : Source) (size workers : Nat) : Counted (.start source size workers) where
  fresh id _ := by
    simp [State.places, State.start, Reader.segment?, Worker.copies, Worker.segment?]
  once id hid := absurd hid (Nat.not_lt_zero id)

/-- No number is in two places. -/
theorem places_le_one (hs : Counted s) (id : Nat) : s.places id ≤ 1 := by
  rcases Nat.lt_or_ge id s.segmenter.segmentsRead with hlt | hle
  · rcases hs.once id hlt with h | h <;> omega
  · have := hs.fresh id hle
    omega

/-- What is somewhere was read. -/
theorem lt_of_places_pos (hs : Counted s) (h : 0 < s.places id) :
    id < s.segmenter.segmentsRead := by
  rcases Nat.lt_or_ge id s.segmenter.segmentsRead with hlt | hle
  · exact hlt
  · have := hs.fresh id hle
    omega

/-- The result of a segment that a worker holds is not filed yet. -/
theorem not_filed (hs : Counted s) (hworker : s.workers[i]? = some worker) {segment : Segment}
    (hsegment : worker.segment? = some segment) : s.ledger.find? segment.id = none := by
  have hplaces := copies_le_places hworker segment.id
  have hone := hs.places_le_one segment.id
  simp only [Worker.copies, hsegment, Option.toList, copies_singleton, if_true] at hplaces
  cases hfiled : s.ledger.find? segment.id with
  | none => rfl
  | some entry =>
    simp only [hfiled, List.length_cons] at hplaces
    omega

/-- And it was read. -/
theorem lt_of_held (hs : Counted s) (hworker : s.workers[i]? = some worker) {segment : Segment}
    (hsegment : worker.segment? = some segment) : segment.id < s.segmenter.segmentsRead := by
  have hplaces := copies_le_places hworker segment.id
  simp only [Worker.copies, hsegment, Option.toList, copies_singleton, if_true] at hplaces
  exact hs.lt_of_places_pos (by omega)

/-- Every step keeps it. -/
theorem step {segments : List Segment} {failure : Option Error} (h : Step codec s action t)
    (hstaff : Staffed s) (hsupply : Supplied segments failure s) (hs : Counted s) : Counted t := by
  rcases places_of_step h with
    ⟨hread, hplaces⟩ | ⟨hr, hread, hplaces⟩ | ⟨segment, hr, hlistening, ht, hplaces⟩
  · refine ⟨fun id hid => ?_, fun id hid => ?_⟩
    · rw [hplaces, hs.fresh id (by omega)]
    · rw [hplaces, hread]
      rcases hs.once id (by omega) with hone | ⟨hzero, hlast, habandoned⟩
      · exact Or.inl hone
      · exact Or.inr ⟨hzero, hlast, abandoned_of_step h habandoned⟩
  · -- the number given out is new, and nothing was read after the work was given up
    refine ⟨fun id hid => ?_, fun id hid => ?_⟩
    · rw [hplaces, hs.fresh id (by omega), if_neg (by omega)]
    · rw [hplaces]
      by_cases hid' : s.segmenter.segmentsRead = id
      · exact Or.inl (by rw [hs.fresh id (by omega), if_pos hid'])
      · rw [if_neg hid']
        rcases hs.once id (by omega) with hone | ⟨hzero, hlast, habandoned⟩
        · exact Or.inl hone
        · simp [State.Abandoned, hr] at habandoned
  · -- a refused send drops the last segment read, all workers having stopped on errors
    have hlast := (hsupply.sending segment hr).2.1
    have hstopped := hstaff.allStopped_of_not_listening (by rw [hr]; rfl) hlistening
    subst ht
    refine ⟨fun id hid => ?_, fun id hid => ?_⟩
    · have := hplaces id
      rw [hs.fresh id hid] at this
      omega
    · have hbefore := hplaces id
      rcases hs.once id hid with hone | ⟨-, -, habandoned⟩
      · rw [hone] at hbefore
        by_cases hid' : segment.id = id
        · rw [if_pos hid'] at hbefore
          exact Or.inr ⟨by omega, by simp only; omega, hstopped, Or.inl rfl⟩
        · rw [if_neg hid'] at hbefore
          exact Or.inl hbefore
      · simp [State.Abandoned, hr] at habandoned

end Counted

end Pool

end ErasureDigest
