import ErasureDigest.Proofs.Hashing.Hasher
import ErasureDigest.Proofs.Stream.Pieces
import Mathlib.Data.List.Induction

/-!
# Any calls on a hasher

A hasher is used by calls in any order, refused ones included. What they
come to is a function of the bytes accepted since it was last started:
`Tracks` is the invariant, that these are whole segments in the columns
and a short rest in the buffer, or all of them in the columns after a
digest was given. Every call keeps it (`Tracks.call`), so it holds after
every history (`tracks_history`), and `state_after_calls` reads the whole
state off the accepted bytes.
-/

namespace ErasureDigest

namespace Hasher

/-- A call on a hasher. -/
inductive Call
  | append (chunk : Bytes)
  | finish
  | init
  deriving DecidableEq, Repr

/-- What a call gives: the digest for a finish, or nothing, or an error. -/
abbrev Reply := Except Error (Option Digest)

/-- What a call gives and the hasher after it. -/
def call (h : Hasher) : Call → Reply × Hasher
  | .append chunk => ((h.append chunk).1.map fun _ => none, (h.append chunk).2)
  | .finish => (h.finish.1.map some, h.finish.2)
  | .init => (.ok none, h.init)

/-- Calls with what they gave, and the hasher after them. -/
structure History where
  log : List (Call × Reply)
  hasher : Hasher

/-- One call more. -/
def History.next (past : History) (call : Call) : History :=
  ⟨past.log ++ [(call, (past.hasher.call call).1)], (past.hasher.call call).2⟩

/-- What calls on a hasher come to, one after the other. -/
def history (h : Hasher) (calls : List Call) : History :=
  calls.foldl History.next ⟨[], h⟩

/-- The bytes accepted after one call more: those of the appends that
succeeded since the last start. -/
def acceptedNext (bytes : Bytes) : Call × Reply → Bytes
  | (.append chunk, .ok _) => bytes ++ chunk
  | (.init, _) => []
  | _ => bytes

/-- The bytes of the appends that succeeded since the last start. -/
def accepted (log : List (Call × Reply)) : Bytes := log.foldl acceptedNext []

/-- Whether a digest was given, after one call more. -/
def hasFinishedNext (finished : Bool) : Call × Reply → Bool
  | (.finish, .ok _) => true
  | (.init, _) => false
  | _ => finished

/-- Whether a finish succeeded since the last start. -/
def hasFinished (log : List (Call × Reply)) : Bool := log.foldl hasFinishedNext false

variable {h : Hasher} {codec : Codec} {size : Nat} {bytes : Bytes} {finished : Bool}
variable {calls : List Call} {error : Error}

theorem history_concat (h : Hasher) (calls : List Call) (call : Call) :
    h.history (calls ++ [call]) = (h.history calls).next call := by
  simp [history]

theorem accepted_next (past : History) (call : Call) :
    accepted (past.next call).log =
      acceptedNext (accepted past.log) (call, (past.hasher.call call).1) := by
  simp [accepted, History.next]

theorem hasFinished_next (past : History) (call : Call) :
    hasFinished (past.next call).log =
      hasFinishedNext (hasFinished past.log) (call, (past.hasher.call call).1) := by
  simp [hasFinished, History.next]

/-- **A call that fails changes nothing.** -/
theorem call_of_error {call : Call} (hfail : (h.call call).1 = .error error) :
    (h.call call).2 = h := by
  cases call with
  | append chunk =>
    cases happend : (h.append chunk).1 with
    | error other => exact append_of_error happend
    | ok _ => simp [Hasher.call, happend, Except.map] at hfail
  | finish =>
    cases hfinish : h.finish.1 with
    | error other => exact finish_of_error hfinish
    | ok d => simp [Hasher.call, hfinish, Except.map] at hfail
  | init => simp [Hasher.call] at hfail

/-! ## The invariant -/

/-- **What a hasher that accepted these bytes holds.** Until a digest is
given, whole segments are in the columns and the short rest waits; then
all of the bytes are in the columns, the last segment short or not. -/
structure Tracks (codec : Codec) (size : Nat) (bytes : Bytes) (finished : Bool) (h : Hasher) :
    Prop where
  codec_eq : h.codec = codec
  size_eq : h.segmentSize = size
  finished_eq : h.finished = finished
  waiting : finished = false → ∃ fronts : List Bytes,
    (∀ front ∈ fronts, front.length = size) ∧ bytes = fronts.flatten ++ h.buffer ∧
      h.buffer.length < size ∧
      (Columns.empty codec.totalShards).collect codec fronts = .ok h.columns
  given : finished = true → h.buffer = [] ∧
    (Columns.empty codec.totalShards).collect codec (bytes.pieces size) = .ok h.columns

/-- A hasher just started has accepted nothing. -/
theorem tracks_start (hsize : 0 < size) : Tracks codec size [] false (start codec size) where
  codec_eq := rfl
  size_eq := rfl
  finished_eq := rfl
  waiting _ := ⟨[], by simp, rfl, hsize, rfl⟩
  given h := by cases h

/-- Starting again is starting. -/
theorem Tracks.init_eq (ht : Tracks codec size bytes finished h) : h.init = start codec size := by
  obtain ⟨rfl, rfl, -, -, -⟩ := ht
  rfl

/-- A refused append accepts nothing, and another its chunk. -/
theorem Tracks.append (ht : Tracks codec size bytes finished h) (chunk : Bytes) :
    Tracks codec size (acceptedNext bytes (.append chunk, (h.call (.append chunk)).1)) finished
      (h.append chunk).2 := by
  rcases append_cases h chunk with ⟨error, heq⟩ | ⟨hfinished, hchunk, hbuffer, hcases⟩
  · simpa [Hasher.call, heq, Except.map, acceptedNext] using ht
  obtain ⟨rfl, rfl, hfinished', hwaiting, -⟩ := ht
  obtain rfl : finished = false := by rw [← hfinished', hfinished]
  obtain ⟨fronts, hfronts, rfl, -, hcollect⟩ := hwaiting rfl
  rcases hcases with ⟨hshort, heq⟩ | ⟨hfull, sums, hs, heq⟩
  · rw [heq]
    refine ⟨rfl, rfl, hfinished, fun _ => ⟨fronts, hfronts, ?_, ?_, hcollect⟩, by simp⟩
    · simp [Hasher.call, heq, Except.map, acceptedNext]
    · simpa using hshort
  · -- the completed segment joins the whole ones, and the excess is the new rest
    rw [heq]
    refine ⟨rfl, rfl, hfinished, fun _ => ⟨fronts ++ [h.completed chunk], ?_, ?_, ?_, ?_⟩, by simp⟩
    · intro front hfront
      rcases List.mem_append.1 hfront with hfront | hfront
      · exact hfronts front hfront
      · rw [List.mem_singleton.1 hfront, length_completed hbuffer hfull]
    · simp [Hasher.call, heq, Except.map, acceptedNext, completed_append_excess]
    · exact length_excess_lt hbuffer hchunk
    · exact Columns.collect_concat hcollect hs

/-- The pieces of what a waiting hasher accepted: the whole segments, and
the rest if there is one. -/
theorem pieces_of_waiting {fronts : List Bytes} {rest : Bytes} (hsize : 0 < size)
    (hfronts : ∀ front ∈ fronts, front.length = size) (hrest : rest.length < size) :
    Bytes.pieces size (fronts.flatten ++ rest) =
      if rest = [] then fronts else fronts ++ [rest] := by
  rw [Bytes.pieces_flatten_append hsize hfronts]
  by_cases hnil : rest = []
  · simp [hnil]
  · rw [if_neg hnil, Bytes.pieces_of_length_le hsize hnil (Nat.le_of_lt hrest)]

/-- A refused finish changes nothing, and another puts the rest into the
columns. -/
theorem Tracks.finish (ht : Tracks codec size bytes finished h) (hsize : 0 < size) :
    Tracks codec size bytes (hasFinishedNext finished (.finish, (h.call .finish).1))
      h.finish.2 := by
  rcases finish_cases h with ⟨error, heq⟩ | ⟨hfinished, hcases⟩
  · simpa [Hasher.call, heq, Except.map, hasFinishedNext] using ht
  obtain ⟨rfl, rfl, hfinished', hwaiting, -⟩ := ht
  obtain rfl : finished = false := by rw [← hfinished', hfinished]
  obtain ⟨fronts, hfronts, rfl, hbuffer, hcollect⟩ := hwaiting rfl
  have hpieces := pieces_of_waiting hsize hfronts hbuffer
  rcases hcases with ⟨hempty, heq⟩ | ⟨hne, sums, hs, heq⟩
  · rw [if_pos hempty] at hpieces
    rw [heq]
    refine ⟨rfl, rfl, by simp [Hasher.call, heq, Except.map, hasFinishedNext],
      by simp [Hasher.call, heq, Except.map, hasFinishedNext], fun _ => ⟨hempty, ?_⟩⟩
    rw [hpieces]
    exact hcollect
  · rw [if_neg hne] at hpieces
    rw [heq]
    refine ⟨rfl, rfl, by simp [Hasher.call, heq, Except.map, hasFinishedNext],
      by simp [Hasher.call, heq, Except.map, hasFinishedNext], fun _ => ⟨rfl, ?_⟩⟩
    rw [hpieces]
    exact Columns.collect_concat hcollect hs

/-- So after a finish that gives a digest all accepted bytes are in the
columns. -/
theorem Tracks.collect_of_finish (ht : Tracks codec size bytes finished h) (hsize : 0 < size)
    {d : Digest} (hfinish : h.finish.1 = .ok d) :
    (Columns.empty codec.totalShards).collect codec (bytes.pieces size) =
      .ok h.finish.2.columns := by
  have hgiven : hasFinishedNext finished (.finish, (h.call .finish).1) = true := by
    simp [Hasher.call, hfinish, Except.map, hasFinishedNext]
  exact ((ht.finish hsize).given hgiven).2

/-- **Every call keeps the invariant.** -/
theorem Tracks.call (ht : Tracks codec size bytes finished h) (hsize : 0 < size) (call : Call) :
    Tracks codec size (acceptedNext bytes (call, (h.call call).1))
      (hasFinishedNext finished (call, (h.call call).1)) (h.call call).2 := by
  cases call with
  | append chunk => exact ht.append chunk
  | finish => exact ht.finish hsize
  | init =>
    rw [show (h.call .init).2 = start codec size from ht.init_eq]
    exact tracks_start hsize

/-- **And so do any calls.** -/
theorem tracks_history (codec : Codec) (hsize : 0 < size) (calls : List Call) :
    Tracks codec size (accepted ((start codec size).history calls).log)
      (hasFinished ((start codec size).history calls).log)
      ((start codec size).history calls).hasher := by
  induction calls using List.reverseRecOn with
  | nil => exact tracks_start hsize
  | append_singleton calls call ih =>
    rw [history_concat, accepted_next, hasFinished_next]
    exact ih.call hsize call

/-! ## The state, read off the accepted bytes -/

/-- What is in the columns at any time: some list of segments, which
together with what waits make the accepted bytes. -/
theorem Tracks.exists_collect (ht : Tracks codec size bytes finished h) :
    ∃ segments : List Bytes, bytes = segments.flatten ++ h.buffer ∧
      (Columns.empty codec.totalShards).collect codec segments = .ok h.columns := by
  cases finished with
  | false =>
    obtain ⟨fronts, -, hbytes, -, hcollect⟩ := ht.waiting rfl
    exact ⟨fronts, hbytes, hcollect⟩
  | true =>
    obtain ⟨hbuffer, hcollect⟩ := ht.given rfl
    exact ⟨bytes.pieces size, by rw [hbuffer, Bytes.flatten_pieces, List.append_nil], hcollect⟩

/-- **The state of a hasher is a function of the accepted bytes.** A new
hasher exists, and after any calls: until a digest was given, the last
`length % size` bytes wait and the columns are those of the full pieces;
after it, nothing waits and the columns are those of all pieces. Failed
calls change nothing, starting again gives the new hasher, there is a
column per shard position with an entry per segment, and the bytes hashed
and the bytes waiting are the accepted ones. -/
theorem state_after_calls (hsize : 0 < size) :
    ∃ fresh, new codec size = .ok fresh ∧ ∀ calls : List Call,
      let h := (fresh.history calls).hasher
      let log := (fresh.history calls).log
      (hasFinished log = false →
        h.buffer = (accepted log).drop ((accepted log).length - (accepted log).length % size) ∧
        h.buffer.length < size ∧
        (Columns.empty codec.totalShards).collect codec ((accepted log).fullPieces size) =
          .ok h.columns ∧
        h.finished = false) ∧
      (hasFinished log = true →
        h.buffer = [] ∧
        (Columns.empty codec.totalShards).collect codec ((accepted log).pieces size) =
          .ok h.columns ∧
        h.finished = true) ∧
      (∀ call error, (h.call call).1 = .error error → (h.call call).2 = h) ∧
      h.init = fresh ∧
      h.columns.shards.length = codec.totalShards ∧
      (∀ column ∈ h.columns.shards, column.size = h.segmentCount) ∧
      h.contentLength + h.buffer.length = (accepted log).length := by
  refine ⟨start codec size, new_eq_ok hsize, fun calls => ?_⟩
  have ht := tracks_history codec hsize calls
  obtain ⟨segments, hbytes, hcollect⟩ := ht.exists_collect
  refine ⟨fun hwaits => ?_, fun hgiven => ?_, fun call error => call_of_error, ht.init_eq,
    ?_, ?_, ?_⟩
  · obtain ⟨fronts, hfronts, hsplit, hbuffer, hfull⟩ := ht.waiting hwaits
    refine ⟨?_, hbuffer, ?_, ht.finished_eq.trans hwaits⟩
    · rw [hsplit, Bytes.drop_of_pieces hfronts hbuffer]
    · rw [hsplit, Bytes.fullPieces_of_pieces hfronts hbuffer]
      exact hfull
  · obtain ⟨hbuffer, hall⟩ := ht.given hgiven
    exact ⟨hbuffer, hall, ht.finished_eq.trans hgiven⟩
  · exact Columns.length_shards_of_collect_empty hcollect
  · exact Columns.size_of_collect (Columns.length_shards_empty _) (Columns.size_empty _) hcollect
  · have hlength := Columns.contentLength_of_collect hcollect
    rw [contentLength, hlength, hbytes, List.length_append]
    simp [Columns.empty]

/-- A chunk across the boundary, a digest, a refused chunk, a new start:
only the byte accepted since then waits. -/
theorem buffer_after_restart : 0 < 2 ∧ ∃ fresh, new (.copying 2 2) 2 = .ok fresh ∧
    (fresh.history [.append [1], .append [2, 3], .finish, .append [9], .init,
      .append [7]]).hasher.buffer = [7] := by
  refine ⟨by decide, ?_⟩
  obtain ⟨fresh, hnew, hstate⟩ :=
    @state_after_calls (.copying 2 2) 2 (by decide)
  obtain rfl : start (.copying 2 2) 2 = fresh := Except.ok.inj hnew
  refine ⟨_, hnew, ?_⟩
  exact ((hstate _).1 rfl).1

end Hasher

end ErasureDigest
