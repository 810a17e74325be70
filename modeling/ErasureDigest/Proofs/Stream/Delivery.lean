import ErasureDigest.Proofs.Stream.Pieces
import ErasureDigest.Stream.Segmenter

/-!
# What a source delivers

`Source.Delivers` says what a source comes to, whatever the reads that
hand it out: the bytes, and the fault that ends it, if one does. Filling
a segment takes its bytes off the front (`fill_of_le`, `fill_of_lt`), so
the segments are the pieces of the content, and only the full ones where
the source fails (`drain_of_delivers`).
-/

namespace ErasureDigest

/-- **What a source comes to**: the bytes it hands out over any reads,
interruptions in between, and then its end or the fault of a read. -/
inductive Source.Delivers : Source → Bytes → Option IoFault → Prop
  /-- Nothing more comes. -/
  | ended : Delivers [] [] none
  /-- A read without bytes, and nothing more comes. -/
  | paused {source : Source} : Delivers source [] none → Delivers (.pause :: source) [] none
  /-- The next read fails, whatever would follow. -/
  | failed (fault : IoFault) (rest : Source) : Delivers (.failure fault :: rest) [] (some fault)
  /-- An interruption changes nothing. -/
  | interrupted {source : Source} {content : Bytes} {ending : Option IoFault} :
      Delivers source content ending → Delivers (.interrupted :: source) content ending
  /-- Bytes go in front of what the rest delivers. -/
  | data (bytes : Bytes) {source : Source} {content : Bytes} {ending : Option IoFault} :
      Delivers source content ending → Delivers (.data bytes :: source) (bytes ++ content) ending

/-- The segments of a content: all its pieces where the source ends, and
the full ones where it fails, since a failure drops the bytes collected
for the segment it meets. -/
def Bytes.segments (size : Nat) (content : Bytes) : Option IoFault → List Bytes
  | none => content.pieces size
  | some _ => content.fullPieces size

namespace Source

/-- A byte string held in memory is delivered whole. -/
theorem delivers_ofBytes (content : Bytes) : Delivers (ofBytes content) content none := by
  simpa [ofBytes] using Delivers.data content Delivers.ended

variable {source : Source} {content : Bytes} {ending : Option IoFault} {room : Nat}

/-- Without room nothing is read. -/
@[simp] theorem fill_zero (source : Source) : fill 0 source = ⟨.ok [], source⟩ := by
  cases source <;> simp [fill]

/-- Bytes that fit are all taken, and the rest of the room is filled from
what follows. -/
theorem fill_data_of_le {bytes : Bytes} (hroom : room ≠ 0) (hle : bytes.length ≤ room) :
    fill room (.data bytes :: source) =
      ⟨(fill (room - bytes.length) source).bytes.map (bytes ++ ·),
        (fill (room - bytes.length) source).rest⟩ := by
  rw [fill, if_neg hroom, List.drop_eq_nil_of_le hle]

/-- Of more bytes than fit those in front are taken, and the others stay. -/
theorem fill_data_of_lt {bytes : Bytes} (hlt : room < bytes.length) :
    fill room (.data bytes :: source) =
      ⟨.ok (bytes.take room), .data (bytes.drop room) :: source⟩ := by
  by_cases hzero : room = 0
  · subst hzero
    exact fill_zero _
  · rw [fill, if_neg hzero]
    cases hdrop : bytes.drop room with
    | nil => exact absurd (List.drop_eq_nil_iff.1 hdrop) (Nat.not_le.2 hlt)
    | cons b left => rfl

/-- **Enough bytes to come fill the segment**, and the source goes on with
what is left. -/
theorem fill_of_le (h : Delivers source content ending) (hroom : room ≤ content.length) :
    ∃ rest, fill room source = ⟨.ok (content.take room), rest⟩ ∧
      Delivers rest (content.drop room) ending := by
  induction h generalizing room with
  | ended =>
    obtain rfl : room = 0 := by simpa using hroom
    exact ⟨[], fill_zero _, Delivers.ended⟩
  | @paused source h ih =>
    obtain rfl : room = 0 := by simpa using hroom
    exact ⟨_, fill_zero _, h.paused⟩
  | failed fault rest =>
    obtain rfl : room = 0 := by simpa using hroom
    exact ⟨_, fill_zero _, Delivers.failed fault rest⟩
  | @interrupted source content ending h ih =>
    by_cases hzero : room = 0
    · subst hzero
      exact ⟨_, fill_zero _, h.interrupted⟩
    · obtain ⟨rest, hfill, hrest⟩ := ih hroom
      exact ⟨rest, by rw [fill, if_neg hzero]; exact hfill, hrest⟩
  | @data bytes source content ending h ih =>
    by_cases hzero : room = 0
    · subst hzero
      exact ⟨_, fill_zero _, h.data bytes⟩
    · rcases Nat.lt_or_ge room bytes.length with hlt | hle
      · refine ⟨.data (bytes.drop room) :: source, ?_, ?_⟩
        · rw [fill_data_of_lt hlt, List.take_append_of_le_length (Nat.le_of_lt hlt)]
        · rw [List.drop_append_of_le_length (Nat.le_of_lt hlt)]
          exact h.data (bytes.drop room)
      · rw [List.length_append] at hroom
        obtain ⟨rest, hfill, hrest⟩ := ih (show room - bytes.length ≤ content.length by omega)
        refine ⟨rest, ?_, ?_⟩
        · rw [fill_data_of_le hzero hle, hfill]
          simp [Except.map, List.take_append, List.take_of_length_le hle]
        · simpa [List.drop_append, List.drop_eq_nil_of_le hle] using hrest

/-- **Too few bytes to come** leave the segment short at the end of the
source, or lost where it fails. -/
theorem fill_of_lt (h : Delivers source content ending) (hroom : content.length < room) :
    ∃ rest, fill room source = ⟨ending.elim (.ok content) .error, rest⟩ ∧
      (ending = none → Delivers rest [] none) := by
  induction h generalizing room with
  | ended => exact ⟨[], by simp [fill], fun _ => Delivers.ended⟩
  | @paused source h ih =>
    have hne : room ≠ 0 := by simp at hroom; omega
    exact ⟨source, by simp [fill, hne], fun _ => h⟩
  | failed fault rest =>
    have hne : room ≠ 0 := by simp at hroom; omega
    exact ⟨rest, by simp [fill, hne], by simp⟩
  | @interrupted source content ending h ih =>
    obtain ⟨rest, hfill, hrest⟩ := ih hroom
    exact ⟨rest, by rw [fill, if_neg (by omega)]; exact hfill, hrest⟩
  | @data bytes source content ending h ih =>
    rw [List.length_append] at hroom
    have hleft : content.length < room - bytes.length := by omega
    obtain ⟨rest, hfill, hrest⟩ := ih hleft
    refine ⟨rest, ?_, hrest⟩
    rw [fill_data_of_le (by omega) (by omega), hfill]
    cases ending with
    | none => rfl
    | some fault => rfl

end Source

namespace Segmenter

variable {s s' : Segmenter} {segment : Segment} {error : Error}

/-! ## What `next` gives -/

/-- **All that the next read can come to**: the end, a failure of the
source, or a segment with bytes, under the number of segments before. -/
theorem next_cases (s : Segmenter) :
    (s.next.1 = none ∧ s.next.2.segmentsRead = s.segmentsRead) ∨
    (∃ fault, s.next.1 = some (.error (.sourceRead fault)) ∧
      s.next.2.segmentsRead = s.segmentsRead) ∨
    (∃ bytes, bytes ≠ [] ∧ s.next.1 = some (.ok ⟨s.segmentsRead, bytes⟩) ∧
      s.next.2.segmentsRead = s.segmentsRead + 1) := by
  unfold next
  by_cases hended : s.ended = true
  · exact Or.inl (by simp [hended])
  rw [if_neg hended]
  rcases hfill : (s.source.fill s.size).bytes with fault | - | ⟨b, bytes⟩
  · exact Or.inr (Or.inl ⟨fault, by simp [hfill]⟩)
  · exact Or.inl (by simp [hfill])
  · exact Or.inr (Or.inr ⟨b :: bytes, by simp, by simp [hfill]⟩)

/-- The segments are numbered in order. -/
theorem segment_of_next (h : s.next = (some (.ok segment), s')) :
    segment.id = s.segmentsRead ∧ s'.segmentsRead = s.segmentsRead + 1 := by
  rcases s.next_cases with ⟨hend, -⟩ | ⟨fault, hfault, -⟩ | ⟨bytes, -, hsegment, hread⟩
  · simp [h] at hend
  · simp [h] at hfault
  · obtain rfl : segment = ⟨s.segmentsRead, bytes⟩ := by simpa [h] using hsegment
    exact ⟨rfl, by simpa [h] using hread⟩

/-- A segmenter fails only where its source does. -/
theorem failure_of_next (h : s.next = (some (.error error), s')) :
    (∃ fault, error = .sourceRead fault) ∧ s'.segmentsRead = s.segmentsRead := by
  rcases s.next_cases with ⟨hend, -⟩ | ⟨fault, hfault, hread⟩ | ⟨bytes, -, hsegment, -⟩
  · simp [h] at hend
  · exact ⟨⟨fault, by simpa [h] using hfault⟩, by simpa [h] using hread⟩
  · simp [h] at hsegment

/-- And at the end it has given all it gives. -/
theorem end_of_next (h : s.next = (none, s')) : s'.segmentsRead = s.segmentsRead := by
  rcases s.next_cases with ⟨-, hread⟩ | ⟨fault, hfault, -⟩ | ⟨bytes, -, hsegment, -⟩
  · simpa [h] using hread
  · simp [h] at hfault
  · simp [h] at hsegment

/-- Whatever is not a segment ends the stream. -/
theorem ended_of_next {given : Option (Except Error Segment)} (h : s.next = (given, s'))
    (hgiven : ∀ segment, given ≠ some (.ok segment)) : s'.ended = true := by
  unfold next at h
  by_cases hended : s.ended = true
  · rw [if_pos hended] at h
    obtain rfl : s = s' := (Prod.mk.inj h).2
    exact hended
  · rw [if_neg hended] at h
    simp only at h
    split at h
    · obtain rfl := (Prod.mk.inj h).2
      rfl
    · obtain rfl := (Prod.mk.inj h).2
      rfl
    · exact absurd (Prod.mk.inj h).1.symm (hgiven _)

/-! ## What `drain` gives, step by step -/

theorem drain_of_segment (h : s.next = (some (.ok segment), s')) :
    s.drain = (segment :: s'.drain.1, s'.drain.2) := by
  rw [drain]
  split <;> simp_all

theorem drain_of_failure (h : s.next = (some (.error error), s')) : s.drain = ([], some error) := by
  rw [drain]
  split <;> simp_all

theorem drain_of_end (h : s.next = (none, s')) : s.drain = ([], none) := by
  rw [drain]
  split <;> simp_all

/-- So the failure that ends the segments is one of the source. -/
theorem exists_fault_of_drain (h : s.drain.2 = some error) :
    ∃ fault, error = .sourceRead fault := by
  fun_induction drain s with
  | case1 s segment s' hnext segments failure hdrain ih => exact ih (by rw [hdrain]; exact h)
  | case2 s other s' hnext =>
    obtain rfl : other = error := by simpa using h
    exact (failure_of_next hnext).1
  | case3 s s' hnext => simp at h

/-- The segments to come are numbered in order. -/
theorem id_of_drain {position : Nat} (h : s.drain.1[position]? = some segment) :
    segment.id = s.segmentsRead + position := by
  fun_induction drain s generalizing position with
  | case1 s first s' hnext segments failure hdrain ih =>
    obtain ⟨hid, hread⟩ := segment_of_next hnext
    cases position with
    | zero =>
      obtain rfl : first = segment := by simpa using h
      exact hid
    | succ position =>
      have hrest : segment.id = s'.segmentsRead + position :=
        ih (by rw [hdrain]; simpa using h)
      omega
  | case2 s error s' hnext => simp at h
  | case3 s s' hnext => simp at h

/-- A fill that gives bytes gives the next segment, and the segmenter goes
on with what the source has left. -/
theorem next_of_fill {bytes : Bytes} {rest : Source} (hended : s.ended = false)
    (hfill : s.source.fill s.size = ⟨.ok bytes, rest⟩) (hne : bytes ≠ []) :
    ∃ s', s.next = (some (.ok ⟨s.segmentsRead, bytes⟩), s') ∧
      s'.source = rest ∧ s'.size = s.size ∧ s'.ended = false := by
  cases bytes with
  | nil => exact absurd rfl hne
  | cons b bytes =>
    refine ⟨{ s with
      source := rest
      segmentsRead := s.segmentsRead + 1
      bytesRead := s.bytesRead + (b :: bytes).length }, ?_, rfl, rfl, hended⟩
    simp [next, hended, hfill]

/-- **The segments of a source are the pieces of what it delivers**, and
the failure that ends them is its own. -/
theorem drain_of_delivers {content : Bytes} {ending : Option IoFault}
    (h : s.source.Delivers content ending) (hsize : 0 < s.size) (hended : s.ended = false) :
    s.drain.1.map (·.bytes) = content.segments s.size ending ∧
      s.drain.2 = ending.map .sourceRead := by
  induction hn : content.length using Nat.strongRecOn generalizing s content with
  | ind n ih =>
  subst hn
  rcases Nat.lt_or_ge content.length s.size with hlt | hle
  · obtain ⟨rest, hfill, hrest⟩ := Source.fill_of_lt h hlt
    rcases ending with - | fault
    · by_cases hne : content = []
      · subst hne
        have hnext : s.next = (none, { s with source := rest, ended := true }) := by
          simp [next, hended, hfill]
        simp [drain_of_end hnext, Bytes.segments]
      · -- the short segment at the end, after which nothing is left
        obtain ⟨s', hnext, hsource, hsize', hended'⟩ := next_of_fill hended hfill hne
        obtain ⟨hbytes, hfailure⟩ := ih 0 (List.length_pos_iff.2 hne)
          (by rw [hsource]; exact hrest rfl) (by rwa [hsize']) hended' rfl
        rw [drain_of_segment hnext]
        refine ⟨?_, hfailure⟩
        rw [List.map_cons, hbytes]
        simp [Bytes.segments, Bytes.pieces_of_length_le hsize hne (Nat.le_of_lt hlt)]
    · have hnext : s.next =
          (some (.error (.sourceRead fault)), { s with source := rest, ended := true }) := by
        simp [next, hended, hfill]
      simp [drain_of_failure hnext, Bytes.segments, Bytes.fullPieces_of_length_lt hlt]
  · obtain ⟨rest, hfill, hrest⟩ := Source.fill_of_le h hle
    have hlength : (content.take s.size).length = s.size := List.length_take_of_le hle
    have hne : content.take s.size ≠ [] := by
      rw [← List.length_pos_iff, hlength]; exact hsize
    obtain ⟨s', hnext, hsource, hsize', hended'⟩ := next_of_fill hended hfill hne
    obtain ⟨hbytes, hfailure⟩ :=
      ih (content.drop s.size).length (by rw [List.length_drop]; omega)
        (by rw [hsource]; exact hrest) (by rwa [hsize']) hended' rfl
    rw [drain_of_segment hnext]
    refine ⟨?_, hfailure⟩
    rw [List.map_cons, hbytes, hsize']
    conv => rhs; rw [← List.take_append_drop s.size content]
    rcases ending with - | fault
    · exact (Bytes.pieces_append hsize hlength).symm
    · exact (Bytes.fullPieces_append hsize hlength).symm

end Segmenter

end ErasureDigest
