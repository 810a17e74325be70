import ErasureDigest.Proofs.Stream.Delivery

/-!
# Sources that pause

A read without bytes ends the segment that is being filled, and the stream
if there is nothing in that segment. A source that never fails is therefore
cut one stretch between pauses at a time (`Source.stretches`, `cut`): the
pieces of the first stretch, and those of what follows only where the last
of them is short (`drain_of_neverFails`).

So a short segment can stand in front of others. One does exactly where the
source pauses within a segment and goes on with bytes
(`forall_length_dropLast_cut_iff`).
-/

namespace ErasureDigest

namespace Source

/-- No read of the source fails. -/
def NeverFails (source : Source) : Prop := ∀ fault, .failure fault ∉ source

/-- All bytes that a source which never fails would hand out. -/
def delivered (source : Source) : Bytes :=
  source.flatMap fun
    | .data bytes => bytes
    | _ => []

/-- What is handed out up to the first pause, between pauses, and behind the
last one. -/
def stretches : Source → List Bytes
  | [] => [[]]
  | .data bytes :: rest => (stretches rest).modifyHead (bytes ++ ·)
  | .pause :: rest => [] :: stretches rest
  | .interrupted :: rest => stretches rest
  | .failure _ :: _ => [[]]

/-- Whether a source pauses within a segment, for the first time it pauses,
and then has bytes at once. -/
def PausesWithin (size : Nat) (source : Source) : Prop :=
  ∃ first second rest, source.stretches = first :: second :: rest ∧
    first.length % size ≠ 0 ∧ second ≠ []

variable {source : Source} {stretch : Bytes} {others : List Bytes} {room : Nat}

theorem NeverFails.tail {event : Event} (h : NeverFails (event :: source)) : source.NeverFails :=
  fun fault hmem => h fault (List.mem_cons_of_mem _ hmem)

theorem NeverFails.cons {event : Event} (h : source.NeverFails)
    (hevent : ∀ fault, event ≠ .failure fault) : NeverFails (event :: source) := by
  intro fault hmem
  rcases List.mem_cons.1 hmem with rfl | hmem
  · exact hevent fault rfl
  · exact h fault hmem

/-- There is always a first stretch, if an empty one. -/
theorem exists_stretches_eq_cons (source : Source) :
    ∃ stretch others, source.stretches = stretch :: others := by
  fun_induction stretches source with
  | case1 => exact ⟨[], [], rfl⟩
  | case2 bytes rest ih =>
    obtain ⟨stretch, others, hrest⟩ := ih
    exact ⟨bytes ++ stretch, others, by rw [hrest, List.modifyHead_cons]⟩
  | case3 rest ih => exact ⟨[], stretches rest, rfl⟩
  | case4 rest ih => exact ih
  | case5 fault rest => exact ⟨[], [], rfl⟩

/-- Bytes belong to the first stretch. -/
theorem stretches_data_eq_cons_iff {bytes : Bytes} :
    stretches (.data bytes :: source) = stretch :: others ↔
      ∃ tail, source.stretches = tail :: others ∧ stretch = bytes ++ tail := by
  obtain ⟨tail, others', hsource⟩ := exists_stretches_eq_cons source
  simp only [stretches, hsource, List.modifyHead_cons, List.cons.injEq]
  constructor
  · rintro ⟨rfl, rfl⟩
    exact ⟨tail, ⟨rfl, rfl⟩, rfl⟩
  · rintro ⟨tail', ⟨rfl, rfl⟩, rfl⟩
    exact ⟨rfl, rfl⟩

/-- The stretches together are what is delivered. -/
theorem flatten_stretches (h : source.NeverFails) :
    source.stretches.flatten = source.delivered := by
  induction source with
  | nil => rfl
  | cons event rest ih =>
    have hrest := ih h.tail
    cases event with
    | data bytes =>
      obtain ⟨stretch, others, hstretches⟩ := exists_stretches_eq_cons rest
      rw [hstretches, List.flatten_cons] at hrest
      rw [stretches_data_eq_cons_iff.2 ⟨stretch, hstretches, rfl⟩, List.flatten_cons,
        List.append_assoc, hrest]
      rfl
    | pause => exact hrest
    | interrupted => exact hrest
    | failure fault => exact absurd List.mem_cons_self (h fault)

/-- **A stretch with enough bytes fills the segment**, and the source goes
on with what is left of it. -/
theorem fill_of_le_stretch (h : source.NeverFails)
    (hstretches : source.stretches = stretch :: others) (hroom : room ≤ stretch.length) :
    ∃ rest, fill room source = ⟨.ok (stretch.take room), rest⟩ ∧ rest.NeverFails ∧
      rest.stretches = stretch.drop room :: others := by
  induction source generalizing room stretch with
  | nil =>
    obtain ⟨rfl, -⟩ := List.cons.inj hstretches
    obtain rfl : room = 0 := Nat.le_zero.1 hroom
    exact ⟨[], rfl, h, hstretches⟩
  | cons event source ih =>
    by_cases hzero : room = 0
    · subst hzero
      exact ⟨_, fill_zero _, h, hstretches⟩
    · cases event with
      | pause =>
        obtain ⟨rfl, -⟩ := List.cons.inj hstretches
        exact absurd (Nat.le_zero.1 hroom) hzero
      | interrupted =>
        rw [fill, if_neg hzero]
        exact ih h.tail hstretches hroom
      | failure fault => exact absurd List.mem_cons_self (h fault)
      | data bytes =>
        obtain ⟨tail, hsource, rfl⟩ := stretches_data_eq_cons_iff.1 hstretches
        rcases Nat.lt_or_ge room bytes.length with hlt | hle
        · refine ⟨.data (bytes.drop room) :: source, ?_, h.tail.cons (by simp), ?_⟩
          · rw [fill_data_of_lt hlt, List.take_append_of_le_length (Nat.le_of_lt hlt)]
          · rw [List.drop_append_of_le_length (Nat.le_of_lt hlt)]
            exact stretches_data_eq_cons_iff.2 ⟨tail, hsource, rfl⟩
        · rw [List.length_append] at hroom
          obtain ⟨rest, hfill, hnever, hrest⟩ := ih h.tail hsource
            (show room - bytes.length ≤ tail.length by omega)
          refine ⟨rest, ?_, hnever, ?_⟩
          · rw [fill_data_of_le hzero hle, hfill]
            simp [Except.map, List.take_append, List.take_of_length_le hle]
          · simpa [List.drop_append, List.drop_eq_nil_of_le hle] using hrest

/-- **A stretch with too few leaves the segment short**, and the source goes
on behind the pause, unless it has ended. -/
theorem fill_of_stretch_lt (h : source.NeverFails)
    (hstretches : source.stretches = stretch :: others) (hroom : stretch.length < room) :
    ∃ rest, fill room source = ⟨.ok stretch, rest⟩ ∧ rest.NeverFails ∧
      (rest.stretches = others ∨ others = [] ∧ rest.stretches = [[]]) := by
  induction source generalizing room stretch with
  | nil =>
    obtain ⟨rfl, rfl⟩ := List.cons.inj hstretches
    exact ⟨[], rfl, h, .inr ⟨rfl, rfl⟩⟩
  | cons event source ih =>
    have hzero : room ≠ 0 := by omega
    cases event with
    | pause =>
      obtain ⟨rfl, rfl⟩ := List.cons.inj hstretches
      exact ⟨source, by rw [fill, if_neg hzero], h.tail, .inl rfl⟩
    | interrupted =>
      rw [fill, if_neg hzero]
      exact ih h.tail hstretches hroom
    | failure fault => exact absurd List.mem_cons_self (h fault)
    | data bytes =>
      obtain ⟨tail, hsource, rfl⟩ := stretches_data_eq_cons_iff.1 hstretches
      rw [List.length_append] at hroom
      obtain ⟨rest, hfill, hrest⟩ := ih h.tail hsource
        (show tail.length < room - bytes.length by omega)
      exact ⟨rest, by rw [fill_data_of_le hzero (by omega), hfill]; rfl, hrest⟩

end Source

/-! ## Stretches cut into segments -/

/-- The segments of stretches: the pieces of the first, and those of the
others only where the last of these is short. -/
def cut (size : Nat) : List Bytes → List Bytes
  | [] => []
  | stretch :: others =>
    stretch.pieces size ++ if stretch.length % size = 0 then [] else cut size others

section Cut

variable {size : Nat} {stretch : Bytes} {stretches others : List Bytes}

/-- A stretch without bytes ends the segments. -/
@[simp] theorem cut_nil_cons : cut size ([] :: others) = [] := by
  simp [cut]

/-- A short stretch is a segment. -/
theorem cut_cons_of_lt (hne : stretch ≠ []) (hlt : stretch.length < size) :
    cut size (stretch :: others) = stretch :: cut size others := by
  have hpos : stretch.length ≠ 0 := by simpa using hne
  rw [cut, Bytes.pieces_of_length_le (by omega) hne (Nat.le_of_lt hlt),
    if_neg (by rwa [Nat.mod_eq_of_lt hlt]), List.singleton_append]

/-- A longer one begins with one. -/
theorem cut_cons_of_le (hsize : 0 < size) (hle : size ≤ stretch.length) :
    cut size (stretch :: others) =
      stretch.take size :: cut size (stretch.drop size :: others) := by
  have hne : stretch ≠ [] := List.length_pos_iff.1 (by omega)
  rw [cut, cut, Bytes.pieces_of_ne_nil hsize hne, List.length_drop,
    ← Nat.mod_eq_sub_mod hle, List.cons_append]

/-- What is cut is the beginning of the stretches. -/
theorem flatten_cut_prefix : (cut size stretches).flatten <+: stretches.flatten := by
  induction stretches with
  | nil => exact List.prefix_rfl
  | cons stretch others ih =>
    rw [cut, List.flatten_append, Bytes.flatten_pieces, List.flatten_cons,
      List.prefix_append_right_inj]
    split
    · exact List.nil_prefix
    · exact ih

variable {source : Source} (hsize : 0 < size)
include hsize

/-- **A pause within a segment leaves it short, in front of another.** -/
theorem not_forall_length_of_pausesWithin (h : source.PausesWithin size) :
    ¬ ∀ segment ∈ (cut size source.stretches).dropLast, segment.length = size := by
  obtain ⟨first, second, rest, hstretches, hshort, hsecond⟩ := h
  obtain ⟨segment, others, hnext⟩ : ∃ segment others,
      cut size (second :: rest) = segment :: others := by
    rcases Nat.lt_or_ge second.length size with hlt | hle
    · exact ⟨_, _, cut_cons_of_lt hsecond hlt⟩
    · exact ⟨_, _, cut_cons_of_le hsize hle⟩
  rw [hstretches, cut, if_neg hshort, hnext, List.dropLast_append_cons, List.forall_mem_append]
  -- were all pieces of the first stretch full, it would end where one does
  rintro ⟨hfull, -⟩
  have hlength := Bytes.length_flatten_of_pieces hfull
  rw [Bytes.flatten_pieces] at hlength
  exact hshort (by rw [hlength, Nat.mul_mod_left])

omit hsize in
/-- **Without one the segments are the pieces of what they hold.** -/
theorem cut_eq_pieces (h : ¬ source.PausesWithin size) :
    cut size source.stretches = Bytes.pieces size (cut size source.stretches).flatten := by
  obtain ⟨first, others, hstretches⟩ := source.exists_stretches_eq_cons
  have hcut : cut size source.stretches = first.pieces size := by
    rw [hstretches, cut]
    split
    · rw [List.append_nil]
    · next hshort =>
      rcases others with - | ⟨second, rest⟩
      · simp [cut]
      · by_cases hsecond : second = []
        · simp [hsecond]
        · exact absurd ⟨first, second, rest, hstretches, hshort, hsecond⟩ h
  rw [hcut, Bytes.flatten_pieces]

/-- **Only the last segment is short**, unless the source pauses within one
and then has bytes. -/
theorem forall_length_dropLast_cut_iff :
    (∀ segment ∈ (cut size source.stretches).dropLast, segment.length = size) ↔
      ¬ source.PausesWithin size := by
  constructor
  · intro hfull hwithin
    exact not_forall_length_of_pausesWithin hsize hwithin hfull
  · intro hwithin
    rw [cut_eq_pieces hwithin]
    exact Bytes.length_of_mem_dropLast_pieces hsize

end Cut

namespace Segmenter

variable {s : Segmenter}

/-- **One step of a segmenter over a source that never fails**: the first
segment of the stretches, or the end where there is none. -/
theorem next_of_neverFails (h : s.source.NeverFails) (hsize : 0 < s.size)
    (hended : s.ended = false) :
    (cut s.size s.source.stretches = [] ∧ s.next.1 = none) ∨
    ∃ segment s', s.next = (some (.ok segment), s') ∧
      cut s.size s.source.stretches = segment.bytes :: cut s'.size s'.source.stretches ∧
      s'.source.NeverFails ∧ s'.size = s.size ∧ s'.ended = false := by
  obtain ⟨stretch, others, hstretches⟩ := Source.exists_stretches_eq_cons s.source
  rw [hstretches]
  rcases Nat.lt_or_ge stretch.length s.size with hlt | hle
  · obtain ⟨rest, hfill, hnever, hrest⟩ := Source.fill_of_stretch_lt h hstretches hlt
    by_cases hne : stretch = []
    · subst hne
      exact .inl ⟨cut_nil_cons, by simp [next, hended, hfill]⟩
    · obtain ⟨s', hnext, hsource, hsize', hended'⟩ := next_of_fill hended hfill hne
      refine .inr ⟨_, s', hnext, ?_, hsource ▸ hnever, hsize', hended'⟩
      rw [cut_cons_of_lt hne hlt, hsource, hsize']
      rcases hrest with hrest | ⟨rfl, hrest⟩
      · rw [hrest]
      · simp [hrest, cut]
  · obtain ⟨rest, hfill, hnever, hrest⟩ := Source.fill_of_le_stretch h hstretches hle
    have hne : stretch.take s.size ≠ [] := by
      rw [← List.length_pos_iff, List.length_take_of_le hle]
      exact hsize
    obtain ⟨s', hnext, hsource, hsize', hended'⟩ := next_of_fill hended hfill hne
    refine .inr ⟨_, s', hnext, ?_, hsource ▸ hnever, hsize', hended'⟩
    rw [cut_cons_of_le hsize hle, hsource, hsize', hrest]

/-- **The segments of a source that never fails** are its stretches, cut,
and no failure ends them. -/
theorem drain_of_neverFails (h : s.source.NeverFails) (hsize : 0 < s.size)
    (hended : s.ended = false) :
    s.drain.1.map (·.bytes) = cut s.size s.source.stretches ∧ s.drain.2 = none := by
  fun_induction drain s with
  | case1 s segment s' hnext segments failure hdrain ih =>
    rcases next_of_neverFails h hsize hended with
      ⟨-, hend⟩ | ⟨first, s'', hnext', hcut, hnever, hsize', hended'⟩
    · simp [hnext] at hend
    · obtain ⟨rfl, rfl⟩ : segment = first ∧ s' = s'' := by
        simpa [hnext] using hnext'
      obtain ⟨hbytes, hfailure⟩ := ih hnever (by rwa [hsize']) hended'
      rw [hdrain] at hbytes hfailure
      exact ⟨by rw [List.map_cons, hcut, hbytes], hfailure⟩
  | case2 s error s' hnext =>
    rcases next_of_neverFails h hsize hended with ⟨-, hend⟩ | ⟨first, s'', hnext', -⟩
    · simp [hnext] at hend
    · simp [hnext] at hnext'
  | case3 s s' hnext =>
    rcases next_of_neverFails h hsize hended with ⟨hcut, -⟩ | ⟨first, s'', hnext', -⟩
    · exact ⟨hcut.symm, rfl⟩
    · simp [hnext] at hnext'

end Segmenter

end ErasureDigest
