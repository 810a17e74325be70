import ErasureDigest.Digest.Columns
import ErasureDigest.Hashing.Pool.Ledger
import ErasureDigest.Stream.Segmenter

/-!
# The worker pool as a machine

One reader cuts the source into segments and puts them on a queue of
bounded length; workers take them off, hash them and file the results in a
ledger. A worker whose segment fails reports the error in a slot that keeps
the first one, and stops; its peers go on. When every worker has stopped,
the queue takes nothing more and the reader ends.

`State.step` says what one action of the reader or of a worker does, and in
which states it can happen. Any order of actions is a run.
-/

namespace ErasureDigest

namespace Pool

/-- How many segments may wait on the queue. -/
def queueCapacity : Nat := 100

/-- What the reader is about to do. -/
inductive Reader
  /-- Read the next segment. -/
  | reading
  /-- Put a segment on the queue. -/
  | sending (segment : Segment)
  /-- Close the queue, having read to the end or to a failure. -/
  | closing (outcome : Except Error Unit)
  /-- Nothing; the queue is closed. -/
  | closed (outcome : Except Error Unit)

/-- What a worker is about to do. -/
inductive Worker
  /-- Take a segment from the queue. -/
  | idle
  /-- Hash a segment. -/
  | hashing (segment : Segment)
  /-- File the result of a segment. -/
  | filing (segment : Segment) (sums : SegmentSums)
  /-- Report the error that a segment brought about. -/
  | failing (segment : Segment) (error : Error)
  /-- Stop, having reported the error of a segment. -/
  | stopping (segment : Segment)
  /-- Nothing; it stopped on the error of a segment. -/
  | stopped (segment : Segment)
  /-- Nothing; it found the queue closed and empty. -/
  | done
  deriving DecidableEq

/-- Whether a worker still listens to the queue. -/
def Worker.isListening : Worker → Bool
  | stopped _ | done => false
  | _ => true

/-- Everything that the reader and the workers hold and share. -/
structure State where
  segmenter : Segmenter
  reader : Reader
  /-- Segments waiting, the oldest first. -/
  queue : List Segment
  workers : List Worker
  ledger : Ledger
  /-- The first error a worker reported. -/
  slot : Option Error

/-- A step of the reader or of the worker with a number. -/
inductive Action
  | read
  | send
  /-- The queue takes nothing more, so the reader ends. -/
  | refuse
  | close
  | take (worker : Nat)
  | leave (worker : Nat)
  | hash (worker : Nat)
  | file (worker : Nat)
  | report (worker : Nat)
  | stop (worker : Nat)
  deriving DecidableEq, Repr

namespace State

/-- The pool before its first action; there is at least one worker. -/
def start (source : Source) (segmentSize workers : Nat) : State where
  segmenter := .start source segmentSize
  reader := .reading
  queue := []
  workers := List.replicate (max 1 workers) .idle
  ledger := .empty
  slot := none

/-- Whether some worker still listens to the queue. -/
def isListening (s : State) : Bool := s.workers.any (·.isListening)

/-- The reader's outcome once the queue is closed. -/
def outcome? (s : State) : Option (Except Error Unit) :=
  match s.reader with
  | .closed outcome => some outcome
  | _ => none

/-- Reads the next segment, or finds out that there is none. -/
def read (s : State) : State :=
  match s.segmenter.next with
  | (some (.ok segment), segmenter) =>
    { s with segmenter := segmenter, reader := .sending segment }
  | (some (.error error), segmenter) =>
    { s with segmenter := segmenter, reader := .closing (.error error) }
  | (none, segmenter) => { s with segmenter := segmenter, reader := .closing (.ok ()) }

/-- Gives worker `i` a new state. -/
def setWorker (s : State) (i : Nat) (worker : Worker) : State :=
  { s with workers := s.workers.set i worker }

/-- Worker `i` files the result of a segment, or fails because one was
filed before. -/
def fileResult (s : State) (i : Nat) (segment : Segment) (sums : SegmentSums) : State :=
  let ⟨segmenter, reader, queue, workers, ledger, slot⟩ := s
  if (ledger.find? segment.id).isSome then
    ⟨segmenter, reader, queue,
      workers.set i (.failing segment (.duplicateSegment segment.id)), ledger, slot⟩
  else
    ⟨segmenter, reader, queue, workers.set i .idle,
      ledger.put segment.id ⟨sums, segment.bytes.length⟩, slot⟩

/-- The state after an action, if the action can happen. -/
def step (codec : Codec) (s : State) : Action → Option State
  | .read =>
    match s.reader with
    | .reading => some s.read
    | _ => none
  | .send =>
    match s.reader with
    | .sending segment =>
      if s.isListening && decide (s.queue.length < queueCapacity) then
        some { s with queue := s.queue ++ [segment], reader := .reading }
      else none
    | _ => none
  | .refuse =>
    match s.reader with
    | .sending _ => if s.isListening then none else some { s with reader := .closing (.ok ()) }
    | _ => none
  | .close =>
    match s.reader with
    | .closing outcome => some { s with reader := .closed outcome }
    | _ => none
  | .take i =>
    match s.workers[i]?, s.queue with
    | some .idle, segment :: queue =>
      some { s with queue := queue, workers := s.workers.set i (.hashing segment) }
    | _, _ => none
  | .leave i =>
    match s.workers[i]?, s.queue, s.reader with
    | some .idle, [], .closed _ => some (s.setWorker i .done)
    | _, _, _ => none
  | .hash i =>
    match s.workers[i]? with
    | some (.hashing segment) =>
      match codec.sums segment.bytes with
      | .ok sums => some (s.setWorker i (.filing segment sums))
      | .error error => some (s.setWorker i (.failing segment error))
    | _ => none
  | .file i =>
    match s.workers[i]? with
    | some (.filing segment sums) => some (s.fileResult i segment sums)
    | _ => none
  | .report i =>
    match s.workers[i]? with
    | some (.failing segment error) =>
      some { s with
        slot := s.slot.or (some error)
        workers := s.workers.set i (.stopping segment) }
    | _ => none
  | .stop i =>
    match s.workers[i]? with
    | some (.stopping segment) => some (s.setWorker i (.stopped segment))
    | _ => none

/-- Whether the queue is closed and every worker has ended. -/
def isFinal (s : State) : Bool :=
  s.outcome?.isSome && !s.isListening

/-- What the computation gives at the end: the first error a worker
reported, else the reader's failure, else the digest of the results. -/
def result (codec : Codec) (s : State) : Except Error Digest :=
  match s.slot with
  | some error => .error error
  | none =>
    match s.outcome?.getD (.ok ()) with
    | .error error => .error error
    | .ok () =>
      match s.ledger.ordered s.segmenter.segmentsRead with
      | .error error => .error error
      | .ok entries =>
        .ok (entries.foldl (fun columns entry => columns.push entry.sums entry.length)
          (Columns.empty codec.totalShards)).digest

end State

end Pool

end ErasureDigest
