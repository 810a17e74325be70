import ErasureDigest.Hashing.Pool.State
import ErasureDigest.Hashing.Serial

/-!
# Running the pool

Any schedule of actions may run the pool. The one here lets workers go
before the reader, the first worker that can act first, and never picks an
action that cannot happen (`State.isSome_step_of_nextAction?`).
`State.effort` bounds the actions still to come, whatever the schedule.
-/

namespace ErasureDigest

namespace Pool

-- a sum of numbers starts at the literal zero, whatever else is imported
attribute [local instance (1100)] Zero.ofOfNat0

/-- How many actions a worker in this state can still take part in. -/
def Worker.effort : Worker → Nat
  | idle => 1
  | hashing _ => 4
  | filing .. => 3
  | failing .. => 2
  | stopping _ => 1
  | stopped _ | done => 0

/-- How many actions a reader in this state can still take part in or
cause, the source aside. -/
def Reader.effort : Reader → Nat
  | reading => 2
  | sending _ => 7
  | closing _ => 1
  | closed _ => 0

namespace State

/-- A bound on the actions still to come. -/
def effort (s : State) : Nat :=
  6 * s.segmenter.weight + s.reader.effort + 4 * s.queue.length +
    (s.workers.map Worker.effort).sum

/-- What a worker can do next. -/
def workerAction? (s : State) (i : Nat) (worker : Worker) : Option Action :=
  match worker with
  | .idle =>
    match s.queue, s.reader with
    | _ :: _, _ => some (.take i)
    | [], .closed _ => some (.leave i)
    | [], _ => none
  | .hashing _ => some (.hash i)
  | .filing .. => some (.file i)
  | .failing .. => some (.report i)
  | .stopping _ => some (.stop i)
  | .stopped _ | .done => none

/-- What the reader can do next. -/
def readerAction? (s : State) : Option Action :=
  match s.reader with
  | .reading => some .read
  | .sending _ =>
    if !s.isListening then some .refuse
    else if s.queue.length < queueCapacity then some .send
    else none
  | .closing _ => some .close
  | .closed _ => none

/-- The first action that one of the workers from number `i` on can do. -/
def firstWorkerAction? (s : State) (i : Nat) : List Worker → Option Action
  | [] => none
  | worker :: rest => (s.workerAction? i worker).or (s.firstWorkerAction? (i + 1) rest)

/-- The action that the schedule lets happen next. -/
def nextAction? (s : State) : Option Action :=
  (s.firstWorkerAction? 0 s.workers).or s.readerAction?

/-- What a worker can do next can happen. -/
theorem isSome_step_of_workerAction? {codec : Codec} {s : State} {i : Nat} {worker : Worker}
    {action : Action} (hi : s.workers[i]? = some worker)
    (h : s.workerAction? i worker = some action) : (s.step codec action).isSome := by
  cases worker with
  | idle =>
    simp only [workerAction?] at h
    split at h
    · next hq =>
      obtain rfl := Option.some.inj h
      simp [step, hi, hq]
    · next hq hr =>
      obtain rfl := Option.some.inj h
      simp [step, hi, hq, hr]
    · simp at h
  | hashing segment =>
    obtain rfl := Option.some.inj h
    simp only [step, hi]
    split <;> rfl
  | filing segment sums =>
    obtain rfl := Option.some.inj h
    simp [step, hi]
  | failing segment error =>
    obtain rfl := Option.some.inj h
    simp [step, hi]
  | stopping segment =>
    obtain rfl := Option.some.inj h
    simp [step, hi]
  | stopped segment => simp [workerAction?] at h
  | done => simp [workerAction?] at h

/-- What the reader can do next can happen. -/
theorem isSome_step_of_readerAction? {codec : Codec} {s : State} {action : Action}
    (h : s.readerAction? = some action) : (s.step codec action).isSome := by
  unfold readerAction? at h
  split at h
  · next hr =>
    obtain rfl := Option.some.inj h
    simp [step, hr]
  · next hr =>
    split at h
    · next hl =>
      obtain rfl := Option.some.inj h
      simp_all [step]
    · next hl =>
      split at h
      · next hq =>
        obtain rfl := Option.some.inj h
        simp_all [step]
      · simp at h
  · next hr =>
    obtain rfl := Option.some.inj h
    simp [step, hr]
  · simp at h

/-- The action that is found is one of a worker of the list. -/
theorem exists_of_firstWorkerAction? {s : State} {i : Nat} {workers : List Worker}
    {action : Action} (h : s.firstWorkerAction? i workers = some action) :
    ∃ (k : Nat) (worker : Worker), workers[k]? = some worker ∧
      s.workerAction? (i + k) worker = some action := by
  induction workers generalizing i with
  | nil => simp [firstWorkerAction?] at h
  | cons worker rest ih =>
    rw [firstWorkerAction?, Option.or_eq_some_iff] at h
    rcases h with h | ⟨-, h⟩
    · exact ⟨0, worker, rfl, h⟩
    · obtain ⟨k, found, hk, hfound⟩ := ih h
      exact ⟨k + 1, found, hk, by rwa [Nat.add_comm k, ← Nat.add_assoc]⟩

/-- The schedule picks only actions that can happen. -/
theorem isSome_step_of_nextAction? {codec : Codec} {s : State} {action : Action}
    (h : s.nextAction? = some action) : (s.step codec action).isSome := by
  rw [nextAction?, Option.or_eq_some_iff] at h
  rcases h with h | ⟨-, h⟩
  · obtain ⟨k, worker, hk, hworker⟩ := exists_of_firstWorkerAction? h
    rw [Nat.zero_add] at hworker
    exact isSome_step_of_workerAction? hk hworker
  · exact isSome_step_of_readerAction? h

/-- Lets at most `count` actions happen. -/
def run (codec : Codec) : (count : Nat) → State → State
  | 0, s => s
  | count + 1, s =>
    match h : s.nextAction? with
    | none => s
    | some action => run codec count ((s.step codec action).get (isSome_step_of_nextAction? h))

end State

/-- Digests a source, cut into segments of `segmentSize` bytes and hashed by
`workers` workers, at least one. -/
def spend (codec : Codec) (segmentSize workers : Nat) (source : Source) : Spent :=
  match checkSegmentSize segmentSize with
  | .error error => ⟨.error error, source⟩
  | .ok () =>
    let s := State.start source segmentSize workers
    let last := s.run codec s.effort
    ⟨last.result codec, last.segmenter.source⟩

/-- The digest of a source, cut into segments of `segmentSize` bytes and
hashed by `workers` workers, at least one. -/
def digest (codec : Codec) (segmentSize workers : Nat) (source : Source) :
    Except Error Digest :=
  (spend codec segmentSize workers source).outcome

/-- The most workers a computation gets. -/
def maxWorkers : Nat := 5

/-- The number of workers for a machine: half its cores, within
`maxWorkers`, and at least one. -/
def workersFor (cores : Nat) : Nat := max 1 (min maxWorkers (cores / 2))

end Pool

end ErasureDigest
