import ErasureDigest.Proofs.Pool.Account

/-!
# What the pool has found out

What the workers know of their segments, what the ledger holds and what the
slot holds is true of the segments of the source (`Genuine`). With the
invariants on where segments are and on how reader and workers end it makes
`Sound`, which every run keeps (`sound_of_run`). At the end of a run
without a report every segment is filed (`filed_of_isFinal`), so the ledger
reads back as the columns of the source (`result_eq_outcome`).
-/

namespace ErasureDigest

/-- Whether a segment is one of some segments, under its own number. -/
def Segment.IsOf (segment : Segment) (segments : List Segment) : Prop :=
  segments[segment.id]? = some segment

namespace Pool

/-- What a worker stands for: its segment is one of the source, and the
codec said of it what the worker goes on with. -/
def Worker.IsGenuine (codec : Codec) (segments : List Segment) : Worker → Prop
  | idle | done => True
  | hashing segment => segment.IsOf segments
  | filing segment sums => segment.IsOf segments ∧ codec.sums segment.bytes = .ok sums
  | failing segment error => segment.IsOf segments ∧ codec.sums segment.bytes = .error error
  | stopping segment | stopped segment =>
    segment.IsOf segments ∧ ∃ error, codec.sums segment.bytes = .error error

/-- **Nothing in the pool is made up.** -/
structure Genuine (codec : Codec) (segments : List Segment) (s : State) : Prop where
  queue : ∀ segment ∈ s.queue, segment.IsOf segments
  workers : ∀ worker ∈ s.workers, worker.IsGenuine codec segments
  ledger : ∀ (id : Nat) (entry : Entry), s.ledger.find? id = some entry →
    ∃ segment, segments[id]? = some segment ∧ entry.IsFor codec segment.bytes
  /-- The slots of the ledger end with the last segment read. -/
  slots : s.ledger.slots.size ≤ s.segmenter.segmentsRead
  slot : ∀ error, s.slot = some error →
    ∃ segment ∈ segments, codec.sums segment.bytes = .error error

variable {codec : Codec} {segments : List Segment} {failure : Option Error}
variable {s t : State} {action : Action} {steps : List (State × Action)}

namespace Genuine

/-- At the start there is nothing. -/
theorem start (source : Source) (size workers : Nat) :
    Genuine codec segments (.start source size workers) where
  queue segment h := by simp [State.start] at h
  workers worker hworker := by
    obtain rfl := List.eq_of_mem_replicate hworker
    trivial
  ledger id entry h := by simp [State.start] at h
  slots := Nat.le_refl _
  slot error h := by simp [State.start] at h

/-- A step of the reader that leaves the queue alone. -/
theorem of_reader (hs : Genuine codec segments s) {segmenter : Segmenter} (reader : Reader)
    (hread : s.segmenter.segmentsRead ≤ segmenter.segmentsRead) :
    Genuine codec segments { s with segmenter := segmenter, reader := reader } :=
  ⟨hs.queue, hs.workers, hs.ledger, Nat.le_trans hs.slots hread, hs.slot⟩

/-- A worker's step that changes only the worker. -/
theorem setWorker (hs : Genuine codec segments s) {i : Nat} {worker : Worker}
    (hworker : worker.IsGenuine codec segments) : Genuine codec segments (s.setWorker i worker) :=
  ⟨hs.queue, forall_mem_set hs.workers hworker, hs.ledger, hs.slots, hs.slot⟩

/-- What a worker of the pool stands for. -/
theorem worker (hs : Genuine codec segments s) {i : Nat} {worker : Worker}
    (h : s.workers[i]? = some worker) : worker.IsGenuine codec segments :=
  hs.workers worker (List.mem_of_getElem? h)

/-- Every step keeps it: nothing is filed twice. -/
theorem step (h : Step codec s action t) (hsupply : Supplied segments failure s)
    (hcount : Counted s) (hs : Genuine codec segments s) : Genuine codec segments t := by
  cases h with
  | @readSegment segment segmenter hr hnext =>
    have hread := (Segmenter.segment_of_next hnext).2
    exact hs.of_reader (.sending segment) (by omega)
  | @readFailure error segmenter hr hnext =>
    have hread := (Segmenter.failure_of_next hnext).2
    exact hs.of_reader (.closing (.error error)) (by omega)
  | readEnd hr hnext =>
    have hread := Segmenter.end_of_next hnext
    exact hs.of_reader (.closing (.ok ())) (by omega)
  | @send segment hr hlistening hroom =>
    refine ⟨fun other hother => ?_, hs.workers, hs.ledger, hs.slots, hs.slot⟩
    rcases List.mem_append.1 hother with hother | hother
    · exact hs.queue other hother
    · obtain rfl := List.mem_singleton.1 hother
      exact (hsupply.sending _ hr).2.2
  | refuse hr hlistening => exact hs.of_reader _ (Nat.le_refl _)
  | close hr => exact hs.of_reader _ (Nat.le_refl _)
  | @take i segment queue hworker hqueue =>
    have hsegment : segment.IsOf segments := hs.queue segment (by simp [hqueue])
    refine ⟨fun other hother => hs.queue other ?_, forall_mem_set hs.workers hsegment,
      hs.ledger, hs.slots, hs.slot⟩
    rw [hqueue]
    exact List.mem_cons_of_mem _ hother
  | leave hworker => exact hs.setWorker trivial
  | accept hworker hsums =>
    have hsegment := hs.worker hworker
    exact hs.setWorker ⟨hsegment, hsums⟩
  | reject hworker hsums =>
    have hsegment := hs.worker hworker
    exact hs.setWorker ⟨hsegment, hsums⟩
  | @file i segment sums hworker hfiled =>
    obtain ⟨hsegment, hsums⟩ := hs.worker hworker
    refine ⟨hs.queue, forall_mem_set hs.workers trivial, fun id entry hentry => ?_, ?_, hs.slot⟩
    · simp only [Ledger.find?_put] at hentry
      split at hentry
      · next hid =>
        obtain rfl := Option.some.inj hentry
        exact ⟨segment, hid ▸ hsegment, hsums, rfl⟩
      · exact hs.ledger id entry hentry
    · have hread := hcount.lt_of_held hworker rfl
      have hslots := hs.slots
      simp only [Ledger.size_put]
      omega
  | duplicate hworker hfiled =>
    -- the segment would be with the worker and in the ledger
    rw [hcount.not_filed hworker rfl] at hfiled
    simp at hfiled
  | @report i segment error hworker =>
    -- a worker fails only on a rejected segment, nothing being filed twice
    obtain ⟨hsegment, hsums⟩ := hs.worker hworker
    refine ⟨hs.queue, forall_mem_set hs.workers ⟨hsegment, error, hsums⟩, hs.ledger, hs.slots,
      fun first hfirst => ?_⟩
    simp only [Option.or_eq_some_iff] at hfirst
    rcases hfirst with hfirst | ⟨-, hfirst⟩
    · exact hs.slot first hfirst
    · obtain rfl := Option.some.inj hfirst
      exact ⟨segment, List.mem_of_getElem? hsegment, hsums⟩
  | stop hworker =>
    have hgenuine := hs.worker hworker
    exact hs.setWorker hgenuine

end Genuine

/-- **What holds in every state of a run**, the segments and the failure
being those of the source. -/
structure Sound (codec : Codec) (segments : List Segment) (failure : Option Error)
    (s : State) : Prop where
  staffed : Staffed s
  supplied : Supplied segments failure s
  counted : Counted s
  genuine : Genuine codec segments s

/-- Every step keeps it. -/
theorem sound_of_step (h : Step codec s action t) (hs : Sound codec segments failure s) :
    Sound codec segments failure t where
  staffed := hs.staffed.step h
  supplied := hs.supplied.step h hs.staffed
  counted := hs.counted.step h hs.staffed hs.supplied
  genuine := hs.genuine.step h hs.supplied hs.counted

/-- **So every run keeps it**, in whatever order its steps come. -/
theorem sound_of_run {source : Source} {size workers : Nat}
    (h : Run codec (.start source size workers) steps s) :
    Sound codec (Segmenter.start source size).drain.1 (Segmenter.start source size).drain.2 s :=
  h.invariant sound_of_step ⟨.start source size workers, .start source size workers,
    .start source size workers, .start source size workers⟩

/-! ## The end of a run -/

section Unreported

variable (hs : Sound codec segments failure s) (hfinal : s.isFinal = true) (hslot : s.slot = none)
include hs hfinal hslot

/-- Without a report all workers are done. -/
theorem done_of_isFinal : ∀ worker ∈ s.workers, worker = .done := by
  obtain ⟨outcome, -, hended⟩ := exists_closed_of_isFinal hfinal
  intro worker hworker
  have hlistening := hended worker hworker
  cases worker with
  | done => rfl
  | stopped segment =>
    have := hs.staffed.reported _ hworker rfl
    simp [hslot] at this
  | _ => simp [Worker.isListening] at hlistening

/-- So the work was not given up, and the reader came to the end of the
source. -/
theorem closed_of_isFinal :
    ¬ s.Abandoned ∧ s.segmenter.segmentsRead = segments.length ∧
      s.reader = .closed (failure.elim (.ok ()) .error) := by
  obtain ⟨outcome, hr, -⟩ := exists_closed_of_isFinal hfinal
  have hnot : ¬ s.Abandoned := fun habandoned => by
    have := hs.staffed.isSome_slot_of_allStopped habandoned.1
    simp [hslot] at this
  rcases hs.supplied.ended outcome (Or.inr hr) with ⟨hread, rfl⟩ | habandoned
  · exact ⟨hnot, hread, hr⟩
  · exact absurd habandoned hnot

/-- **At the end of a run without a report, every segment is filed.** -/
theorem filed_of_isFinal : ∀ id < segments.length, (s.ledger.find? id).isSome = true := by
  intro id hid
  have hdone := done_of_isFinal hs hfinal hslot
  obtain ⟨hnot, hread, hr⟩ := closed_of_isFinal hs hfinal hslot
  obtain ⟨worker, hworker⟩ := List.exists_mem_of_ne_nil _ hs.staffed.nonempty
  have hqueue := (hs.staffed.drained (hdone worker hworker ▸ hworker)).1
  have hplaces : s.places id = 1 := by
    rcases hs.counted.once id (by omega) with hone | ⟨-, -, habandoned⟩
    · exact hone
    · exact absurd habandoned hnot
  -- nobody holds a segment and none waits, so the one place left is the ledger
  have hworkers : (s.workers.map (Worker.copies id)).sum = 0 := by
    rw [List.sum_eq_zero_iff_forall_eq_nat]
    intro count hcount
    obtain ⟨other, hother, rfl⟩ := List.mem_map.1 hcount
    rw [hdone other hother]
    rfl
  simp only [State.places, hr, Reader.segment?, Option.toList, copies_nil, hqueue, hworkers]
    at hplaces
  cases hfind : s.ledger.find? id with
  | none => simp [hfind] at hplaces
  | some entry => rfl

/-- So every segment was accepted. -/
theorem accepts_of_isFinal : ∀ segment ∈ segments, codec.Accepts segment.bytes := by
  intro segment hsegment
  obtain ⟨id, hid⟩ := List.mem_iff_getElem?.1 hsegment
  have hfiled := filed_of_isFinal hs hfinal hslot id (List.getElem?_eq_some_iff.1 hid).1
  obtain ⟨entry, hentry⟩ := Option.isSome_iff_exists.1 hfiled
  obtain ⟨other, hother, hfor⟩ := hs.genuine.ledger id entry hentry
  obtain rfl := Option.some.inj (hid.symm.trans hother)
  exact ⟨entry.sums, hfor.1⟩

/-- So the ledger reads back, and its results are the columns of the
segments. -/
theorem exists_ordered_of_isFinal :
    ∃ entries, s.ledger.ordered s.segmenter.segmentsRead = .ok entries ∧
      (Columns.empty codec.totalShards).collect codec (segments.map (·.bytes)) =
        .ok (entries.foldl (fun columns entry => columns.push entry.sums entry.length)
          (Columns.empty codec.totalShards)) := by
  obtain ⟨-, hread, -⟩ := closed_of_isFinal hs hfinal hslot
  obtain ⟨entries, hordered, hlength, hentries⟩ :=
    Ledger.exists_ordered_eq_ok (hread ▸ hs.genuine.slots)
      (filed_of_isFinal hs hfinal hslot)
  refine ⟨entries, hread ▸ hordered, ?_⟩
  refine Columns.collect_of_entries (by rw [hlength, List.length_map])
    fun id entry bytes hentry hbytes => ?_
  rw [List.getElem?_map, Option.map_eq_some_iff] at hbytes
  obtain ⟨segment, hsegment, rfl⟩ := hbytes
  obtain ⟨other, hother, hfor⟩ := hs.genuine.ledger id entry (hentries id ▸ hentry)
  obtain rfl := Option.some.inj (hsegment.symm.trans hother)
  exact hfor

/-- **A run without a report gives what the segments of the source come
to.** -/
theorem result_eq_outcome :
    s.result codec = codec.outcome (segments.map (·.bytes)) failure := by
  obtain ⟨-, -, hr⟩ := closed_of_isFinal hs hfinal hslot
  obtain ⟨entries, hordered, hcollect⟩ := exists_ordered_of_isFinal hs hfinal hslot
  rw [State.result, hslot, Codec.outcome, hcollect, State.outcome?, hr, hordered]
  cases failure <;> rfl

end Unreported

end Pool

end ErasureDigest
