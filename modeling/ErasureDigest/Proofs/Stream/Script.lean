import ErasureDigest.Proofs.Stream.Stretches

/-!
# The segments that a script defines

A source is a script of reads, and how its bytes are cut into pieces does
not matter: `Source.moments` keeps the bytes one by one, with the pauses,
interruptions and failures between them. On these two relations say what
a segmenter has to do. `Collects` is one segment: bytes until there is no
room, a pause, a failure, or the end, and nothing behind that looked at.
`Answers` is any number of calls: segments under consecutive numbers, then
the end or one failure, then nothing any more.

Each fill collects what `Collects` says (`collects_fill`), so the calls on
a segmenter answer as `Answers` says (`answers_calls`) and in no other way
(`calls_of_answers`). The counters and the order of the bytes are read off
any calls by induction (`counters_calls`, `flatMap_bytes_prefix`).
-/

namespace ErasureDigest

-- a sum of numbers starts at the literal zero, whatever else is imported
attribute [local instance (1100)] Zero.ofOfNat0

/-- What a reader can meet next, one byte at a time. -/
inductive Moment
  | byte (b : UInt8)
  | pause
  | interrupted
  | failure (fault : IoFault)
  deriving DecidableEq, Repr

/-- The bytes among moments. -/
def Moment.bytes (moments : List Moment) : Bytes :=
  moments.filterMap fun
    | .byte b => some b
    | _ => none

/-- What a reader meets in an event. -/
def Event.moments : Event → List Moment
  | .data bytes => bytes.map .byte
  | .pause => [.pause]
  | .interrupted => [.interrupted]
  | .failure fault => [.failure fault]

/-- What a reader meets in a source, in order. -/
def Source.moments (source : Source) : List Moment := source.flatMap Event.moments

/-- **What one segment takes**, given the room in it: the bytes, the fault
of a read that ends it, and the moments left for the next segment. -/
inductive Collects : (room : Nat) → List Moment → Bytes → Option IoFault → List Moment → Prop
  /-- A full segment does not look at what comes next. -/
  | full (moments : List Moment) : Collects 0 moments [] none moments
  /-- Nothing more comes. -/
  | ended (room : Nat) : Collects (room + 1) [] [] none []
  /-- A read without bytes ends the segment and is used up. -/
  | paused (room : Nat) (rest : List Moment) : Collects (room + 1) (.pause :: rest) [] none rest
  /-- And so does a read that fails. -/
  | failed (room : Nat) (fault : IoFault) (rest : List Moment) :
      Collects (room + 1) (.failure fault :: rest) [] (some fault) rest
  /-- An interruption is used up, and the segment goes on. -/
  | interrupted {room : Nat} {moments rest : List Moment} {bytes : Bytes}
      {ending : Option IoFault} : Collects (room + 1) moments bytes ending rest →
      Collects (room + 1) (.interrupted :: moments) bytes ending rest
  /-- A byte goes into the segment. -/
  | byte (b : UInt8) {room : Nat} {moments rest : List Moment} {bytes : Bytes}
      {ending : Option IoFault} : Collects room moments bytes ending rest →
      Collects (room + 1) (.byte b :: moments) (b :: bytes) ending rest

/-- What a call on a segmenter gives: a segment, a failure, or nothing. -/
abbrev Answer := Option (Except Error Segment)

/-- **What any number of calls answer**, the next segment having the number
`id`, and the moments left after them. -/
inductive Answers (size : Nat) : (id : Nat) → List Moment → List Answer → List Moment → Prop
  /-- No call, no answer. -/
  | start (id : Nat) (moments : List Moment) : Answers size id moments [] moments
  /-- A segment with bytes is given, and the next has the next number. -/
  | segment {id : Nat} {moments middle rest : List Moment} {bytes : Bytes}
      {answers : List Answer} : Collects size moments bytes none middle → bytes ≠ [] →
      Answers size (id + 1) middle answers rest →
      Answers size id moments (some (.ok ⟨id, bytes⟩) :: answers) rest
  /-- One without bytes is the end, and nothing is taken any more. -/
  | ended {id : Nat} {moments rest : List Moment} (count : Nat) :
      Collects size moments [] none rest →
      Answers size id moments (List.replicate (count + 1) none) rest
  /-- A failure drops the bytes of its segment, is given once, and is the
  end too. -/
  | failed {id : Nat} {moments rest : List Moment} {bytes : Bytes} {fault : IoFault}
      (count : Nat) : Collects size moments bytes (some fault) rest →
      Answers size id moments (some (.error (.sourceRead fault)) :: List.replicate count none) rest

/-- The segments among answers. -/
def Answer.segments (answers : List Answer) : List Segment :=
  answers.filterMap fun
    | some (.ok segment) => some segment
    | _ => none

/-! ## One segment -/

namespace Collects

variable {room : Nat} {moments rest rest' : List Moment} {bytes bytes' : Bytes}
variable {ending ending' : Option IoFault}

/-- **There is one way to collect a segment.** -/
theorem unique (h : Collects room moments bytes ending rest)
    (h' : Collects room moments bytes' ending' rest') :
    bytes = bytes' ∧ ending = ending' ∧ rest = rest' := by
  induction h generalizing bytes' with
  | full | ended | paused | failed => cases h'; exact ⟨rfl, rfl, rfl⟩
  | interrupted h ih =>
    cases h' with
    | interrupted h' => exact ih h'
  | byte b h ih =>
    cases h' with
    | byte _ h' =>
      obtain ⟨rfl, hending, hrest⟩ := ih h'
      exact ⟨rfl, hending, hrest⟩

/-- A segment has no more bytes than there is room. -/
theorem length_le (h : Collects room moments bytes ending rest) : bytes.length ≤ room := by
  induction h with
  | full | ended | paused | failed => simp
  | interrupted h ih => exact ih
  | byte b h ih =>
    rw [List.length_cons]
    omega

/-- The bytes collected are the first ones that come. -/
theorem bytes_eq (h : Collects room moments bytes ending rest) :
    Moment.bytes moments = bytes ++ Moment.bytes rest := by
  induction h with
  | full | ended | paused | failed => rfl
  | interrupted h ih => exact ih
  | byte b h ih => exact congrArg (b :: ·) ih

/-- Bytes that fill the segment leave the others behind. -/
theorem of_lt {content : Bytes} (hlt : room < content.length) (moments : List Moment) :
    Collects room (content.map .byte ++ moments) (content.take room) none
      ((content.drop room).map .byte ++ moments) := by
  induction room generalizing content with
  | zero => exact .full _
  | succ room ih =>
    rcases content with - | ⟨b, content⟩
    · simp at hlt
    · exact .byte b (ih (Nat.lt_of_succ_lt_succ hlt))

/-- Bytes that fit are in front of what is collected after them. -/
theorem of_le {content : Bytes} (hle : content.length ≤ room)
    (h : Collects (room - content.length) moments bytes ending rest) :
    Collects room (content.map .byte ++ moments) (content ++ bytes) ending rest := by
  induction content generalizing room with
  | nil => exact h
  | cons b content ih =>
    rw [List.length_cons] at hle h
    obtain ⟨room, rfl⟩ : ∃ less, room = less + 1 := ⟨room - 1, by omega⟩
    rw [Nat.add_sub_add_right] at h
    exact .byte b (ih (by omega) h)

end Collects

namespace Source

theorem moments_cons (event : Event) (source : Source) :
    moments (event :: source) = event.moments ++ source.moments := List.flatMap_cons

/-- The bytes of the moments are all that the source would hand out. -/
theorem bytes_moments (source : Source) : Moment.bytes source.moments = source.delivered := by
  induction source with
  | nil => rfl
  | cons event source ih =>
    have hevent : Moment.bytes event.moments = delivered [event] := by
      cases event with
      | data bytes =>
        have hbytes : Moment.bytes (bytes.map .byte) = bytes := by
          rw [Moment.bytes, List.filterMap_map]
          exact List.filterMap_some
        simpa [Event.moments, delivered] using hbytes
      | pause | interrupted | failure => rfl
    have happend : delivered (event :: source) = delivered [event] ++ delivered source := by
      simp [delivered]
    rw [moments_cons, Moment.bytes, List.filterMap_append, happend, ← hevent, ← ih]
    rfl

/-- **A fill collects one segment.** -/
theorem collects_fill (room : Nat) (source : Source) : ∃ bytes ending,
    Collects room source.moments bytes ending (fill room source).rest.moments ∧
      (fill room source).bytes = ending.elim (.ok bytes) .error := by
  induction source generalizing room with
  | nil =>
    have hcollects : Collects room [] [] none [] := by
      cases room with
      | zero => exact .full []
      | succ room => exact .ended room
    exact ⟨[], none, hcollects, rfl⟩
  | cons event source ih =>
    by_cases hzero : room = 0
    · subst hzero
      rw [fill_zero]
      exact ⟨[], none, .full _, rfl⟩
    obtain ⟨less, rfl⟩ : ∃ less, room = less + 1 := ⟨room - 1, by omega⟩
    cases event with
    | pause => exact ⟨[], none, .paused less (moments source), rfl⟩
    | failure fault => exact ⟨[], some fault, .failed less fault (moments source), rfl⟩
    | interrupted =>
      obtain ⟨bytes, ending, hcollects, hfill⟩ := ih (less + 1)
      exact ⟨bytes, ending, .interrupted hcollects, hfill⟩
    | data content =>
      rcases Nat.lt_or_ge (less + 1) content.length with hlt | hle
      · rw [fill_data_of_lt hlt]
        exact ⟨_, none, .of_lt hlt (moments source), rfl⟩
      · obtain ⟨bytes, ending, hcollects, hfill⟩ := ih (less + 1 - content.length)
        rw [fill_data_of_le hzero hle, hfill]
        refine ⟨content ++ bytes, ending, .of_le hle hcollects, ?_⟩
        cases ending <;> rfl

/-- And there is no other way to fill it. -/
theorem fill_of_collects {room : Nat} {source : Source} {bytes : Bytes}
    {ending : Option IoFault} {rest : List Moment}
    (h : Collects room source.moments bytes ending rest) :
    (fill room source).bytes = ending.elim (.ok bytes) .error ∧
      (fill room source).rest.moments = rest := by
  obtain ⟨bytes', ending', hcollects, hfill⟩ := collects_fill room source
  obtain ⟨rfl, rfl, hrest⟩ := h.unique hcollects
  exact ⟨hfill, hrest.symm⟩

end Source

/-! ## One call -/

namespace Segmenter

variable {s : Segmenter} {bytes : Bytes} {fault : IoFault} {rest : List Moment}
variable {answers : List Answer} {size : Nat}

/-- The segmenter after it gave a segment, and what its source is then. -/
def afterSegment (s : Segmenter) (bytes : Bytes) (left : Source) : Segmenter :=
  { s with
    source := left
    segmentsRead := s.segmentsRead + 1
    bytesRead := s.bytesRead + bytes.length }

/-- The segmenter after the stream ended. -/
def afterEnd (s : Segmenter) (left : Source) : Segmenter :=
  { s with source := left, ended := true }

/-- After the end nothing is given and nothing taken. -/
theorem next_of_ended (hended : s.ended = true) : s.next = (none, s) := by
  unfold next
  rw [if_pos hended]

section Next

variable (hended : s.ended = false)
include hended

/-- A segment with bytes is given. -/
theorem next_of_segment (h : Collects s.size s.source.moments bytes none rest) (hne : bytes ≠ []) :
    ∃ left : Source, left.moments = rest ∧
      s.next = (some (.ok ⟨s.segmentsRead, bytes⟩), s.afterSegment bytes left) := by
  obtain ⟨hfill, hrest⟩ := Source.fill_of_collects h
  obtain ⟨b, others, rfl⟩ := List.exists_cons_of_ne_nil hne
  exact ⟨_, hrest, by simp [next, hended, hfill, afterSegment]⟩

/-- One without bytes ends the stream. -/
theorem next_of_empty (h : Collects s.size s.source.moments [] none rest) :
    ∃ left : Source, left.moments = rest ∧ s.next = (none, s.afterEnd left) := by
  obtain ⟨hfill, hrest⟩ := Source.fill_of_collects h
  exact ⟨_, hrest, by simp [next, hended, hfill, afterEnd]⟩

/-- And so does a failure, which is given. -/
theorem next_of_fault (h : Collects s.size s.source.moments bytes (some fault) rest) :
    ∃ left : Source, left.moments = rest ∧
      s.next = (some (.error (.sourceRead fault)), s.afterEnd left) := by
  obtain ⟨hfill, hrest⟩ := Source.fill_of_collects h
  exact ⟨_, hrest, by simp [next, hended, hfill, afterEnd]⟩

end Next

/-! ## Any calls -/

/-- What calls gave, and the segmenter after them. -/
structure Called where
  answers : List Answer
  segmenter : Segmenter

/-- A number of calls, one after the other. -/
def calls (s : Segmenter) : (count : Nat) → Called
  | 0 => ⟨[], s⟩
  | count + 1 => ⟨s.next.1 :: (s.next.2.calls count).answers, (s.next.2.calls count).segmenter⟩

theorem calls_succ {answer : Answer} {s' : Segmenter} (h : s.next = (answer, s')) (count : Nat) :
    s.calls (count + 1) = ⟨answer :: (s'.calls count).answers, (s'.calls count).segmenter⟩ := by
  rw [calls, h]

theorem length_answers_calls (s : Segmenter) (count : Nat) :
    (s.calls count).answers.length = count := by
  induction count generalizing s with
  | zero => rfl
  | succ count ih => exact congrArg (· + 1) (ih s.next.2)

/-- Calls after the end give nothing and take nothing. -/
theorem calls_of_ended (hended : s.ended = true) (count : Nat) :
    s.calls count = ⟨List.replicate count none, s⟩ := by
  induction count with
  | zero => rfl
  | succ count ih =>
    rw [calls_succ (next_of_ended hended), ih]
    rfl

/-- **The calls answer as the script says.** -/
theorem answers_calls (hended : s.ended = false) (count : Nat) :
    Answers s.size s.segmentsRead s.source.moments (s.calls count).answers
      (s.calls count).segmenter.source.moments := by
  induction count generalizing s with
  | zero => exact .start _ _
  | succ count ih =>
    obtain ⟨bytes, ending, hcollects, -⟩ := Source.collects_fill s.size s.source
    rcases ending with - | fault
    · by_cases hempty : bytes = []
      · subst hempty
        obtain ⟨left, hleft, hnext⟩ := next_of_empty hended hcollects
        rw [← hleft] at hcollects
        rw [calls_succ hnext, calls_of_ended rfl]
        exact .ended count hcollects
      · obtain ⟨left, hleft, hnext⟩ := next_of_segment hended hcollects hempty
        rw [← hleft] at hcollects
        rw [calls_succ hnext]
        exact .segment hcollects hempty (ih (s := s.afterSegment bytes left) hended)
    · obtain ⟨left, hleft, hnext⟩ := next_of_fault hended hcollects
      rw [← hleft] at hcollects
      rw [calls_succ hnext, calls_of_ended rfl]
      exact .failed count hcollects

/-- **And in no other way.** -/
theorem calls_of_answers {id : Nat} {moments : List Moment}
    (h : Answers size id moments answers rest) (hsize : s.size = size)
    (hid : s.segmentsRead = id) (hmoments : s.source.moments = moments)
    (hended : s.ended = false) :
    (s.calls answers.length).answers = answers ∧
      (s.calls answers.length).segmenter.source.moments = rest := by
  induction h generalizing s with
  | start => exact ⟨rfl, hmoments⟩
  | segment hcollects hne h ih =>
    subst hsize hid hmoments
    obtain ⟨left, hleft, hnext⟩ := next_of_segment hended hcollects hne
    rw [List.length_cons, calls_succ hnext]
    obtain ⟨hanswers, hrest⟩ := ih (s := s.afterSegment _ left) rfl rfl hleft hended
    exact ⟨congrArg _ hanswers, hrest⟩
  | ended count hcollects =>
    subst hsize hmoments
    obtain ⟨left, hleft, hnext⟩ := next_of_empty hended hcollects
    rw [List.length_replicate, calls_succ hnext, calls_of_ended rfl]
    exact ⟨rfl, hleft⟩
  | failed count hcollects =>
    subst hsize hmoments
    obtain ⟨left, hleft, hnext⟩ := next_of_fault hended hcollects
    rw [List.length_cons, List.length_replicate, calls_succ hnext, calls_of_ended rfl]
    exact ⟨rfl, hleft⟩

/-- The counters go on by the segment that a call gives, if it gives one. -/
theorem counters_next (s : Segmenter) :
    s.next.2.segmentsRead = s.segmentsRead + (Answer.segments [s.next.1]).length ∧
      s.next.2.bytesRead =
        s.bytesRead + ((Answer.segments [s.next.1]).map (·.bytes.length)).sum := by
  unfold next
  split
  · exact ⟨rfl, rfl⟩
  · dsimp only
    split
    · exact ⟨rfl, rfl⟩
    · exact ⟨rfl, rfl⟩
    · exact ⟨rfl, by simp [Answer.segments]⟩

/-- So they count the segments given, and their bytes. -/
theorem counters_calls (s : Segmenter) (count : Nat) :
    (s.calls count).segmenter.segmentsRead =
        s.segmentsRead + (Answer.segments (s.calls count).answers).length ∧
      (s.calls count).segmenter.bytesRead =
        s.bytesRead + ((Answer.segments (s.calls count).answers).map (·.bytes.length)).sum := by
  induction count generalizing s with
  | zero => exact ⟨rfl, rfl⟩
  | succ count ih =>
    obtain ⟨hsegments, hbytes⟩ := counters_next s
    obtain ⟨hsegments', hbytes'⟩ := ih s.next.2
    have hsplit : Answer.segments (s.calls (count + 1)).answers =
        Answer.segments [s.next.1] ++ Answer.segments (s.next.2.calls count).answers :=
      List.filterMap_append (l := [s.next.1])
    rw [hsplit, List.length_append, List.map_append, List.sum_append]
    refine ⟨hsegments'.trans ?_, hbytes'.trans ?_⟩
    · omega
    · omega

/-- A call that gives no segment has ended the stream, and so have those
before which one did. -/
theorem ended_calls (s : Segmenter) (count : Nat)
    (h : ∃ answer ∈ (s.calls count).answers, ∀ segment, answer ≠ some (.ok segment)) :
    (s.calls count).segmenter.ended = true := by
  induction count generalizing s with
  | zero => simp [calls] at h
  | succ count ih =>
    obtain ⟨answer, hmem, hanswer⟩ := h
    rcases List.mem_cons.1 hmem with rfl | hmem
    · have hended : s.next.2.ended = true := ended_of_next rfl hanswer
      rw [calls, calls_of_ended hended]
      exact hended
    · exact ih s.next.2 ⟨answer, hmem, hanswer⟩

end Segmenter

/-! ## What the script says of its segments -/

namespace Answers

variable {size id : Nat} {moments rest : List Moment} {answers : List Answer}

theorem segments_replicate (count : Nat) :
    Answer.segments (List.replicate count none) = [] := by
  simp [Answer.segments]

theorem segments_fault (fault : IoFault) (count : Nat) :
    Answer.segments (some (.error (.sourceRead fault)) :: List.replicate count none) = [] :=
  segments_replicate count

/-- The numbers of the segments have no gaps. -/
theorem map_id (h : Answers size id moments answers rest) :
    (Answer.segments answers).map (·.id) = List.range' id (Answer.segments answers).length := by
  induction h with
  | start => rfl
  | segment hcollects hne h ih => exact congrArg _ ih
  | ended count hcollects =>
    rw [segments_replicate]
    rfl
  | failed count hcollects =>
    rw [segments_fault]
    rfl

/-- Each segment has bytes, and no more than a segment has. -/
theorem length_bytes (h : Answers size id moments answers rest) :
    ∀ segment ∈ Answer.segments answers,
      1 ≤ segment.bytes.length ∧ segment.bytes.length ≤ size := by
  induction h with
  | start => simp [Answer.segments]
  | segment hcollects hne h ih =>
    intro segment hsegment
    rcases List.mem_cons.1 hsegment with rfl | hsegment
    · exact ⟨List.length_pos_iff.2 hne, hcollects.length_le⟩
    · exact ih segment hsegment
  | ended count hcollects => simp [segments_replicate]
  | failed count hcollects => simp [segments_fault]

/-- The segments one behind the other are the first bytes that come. -/
theorem flatMap_bytes_prefix (h : Answers size id moments answers rest) :
    (Answer.segments answers).flatMap (·.bytes) <+: Moment.bytes moments := by
  induction h with
  | start => exact List.nil_prefix
  | segment hcollects hne h ih =>
    rw [hcollects.bytes_eq]
    exact (List.prefix_append_right_inj _).2 ih
  | ended count hcollects =>
    rw [segments_replicate]
    exact List.nil_prefix
  | failed count hcollects =>
    rw [segments_fault]
    exact List.nil_prefix

end Answers

namespace Segmenter

/-- **A segmenter gives the segments that its script defines.** Any answers
are those of as many calls exactly if the script says so, and then what is
left of the source is what the script leaves. After any number of calls:
behind the end or a failure every call gives nothing and changes nothing,
the counters are those of the segments given and of their bytes, the
segments are numbered from zero without a gap, each has from one byte up to
a whole segment, and one behind the other they are the first bytes of the
script. -/
theorem calls_of_script (source : Source) (size : Nat) :
    (∀ answers rest, Answers size 0 source.moments answers rest ↔
      ((start source size).calls answers.length).answers = answers ∧
      ((start source size).calls answers.length).segmenter.source.moments = rest) ∧
    ∀ count,
      let called := (start source size).calls count
      let segments := Answer.segments called.answers
      called.answers.length = count ∧
      ((∃ answer ∈ called.answers, ∀ segment, answer ≠ some (.ok segment)) →
        ∀ more, called.segmenter.calls more = ⟨List.replicate more none, called.segmenter⟩) ∧
      called.segmenter.segmentsRead = segments.length ∧
      called.segmenter.bytesRead = (segments.map (·.bytes.length)).sum ∧
      segments.map (·.id) = List.range segments.length ∧
      (∀ segment ∈ segments, 1 ≤ segment.bytes.length ∧ segment.bytes.length ≤ size) ∧
      segments.flatMap (·.bytes) <+: source.delivered := by
  refine ⟨fun answers rest => ⟨fun h => ?_, fun h => ?_⟩, fun count => ?_⟩
  · exact calls_of_answers h rfl rfl rfl rfl
  · obtain ⟨hanswers, hrest⟩ := h
    have hcalls := answers_calls (s := start source size) rfl answers.length
    rwa [hanswers, hrest] at hcalls
  · have hanswers := answers_calls (s := start source size) rfl count
    obtain ⟨hsegments, hbytes⟩ := counters_calls (start source size) count
    refine ⟨length_answers_calls _ count, fun hlast more => ?_, ?_, ?_, ?_,
      hanswers.length_bytes, ?_⟩
    · exact calls_of_ended (ended_calls _ count hlast) more
    · exact hsegments.trans (Nat.zero_add _)
    · exact hbytes.trans (Nat.zero_add _)
    · exact hanswers.map_id.trans List.range_eq_range'.symm
    · rw [← source.bytes_moments]
      exact hanswers.flatMap_bytes_prefix

/-- A piece across the boundary, an interruption, and a failure within the
second segment: its byte is lost, and the byte behind the failure stays. -/
example :
    calls (start [.data [1], .interrupted, .data [2, 3], .failure .notText, .data [4]] 2) 4 =
      ⟨[some (.ok ⟨0, [1, 2]⟩), some (.error (.sourceRead .notText)), none, none],
        ⟨[.data [4]], 2, 1, 2, true⟩⟩ := rfl

end Segmenter

end ErasureDigest
