import ErasureDigest.Bytes

/-!
# The pieces of a byte string

How `Bytes.pieces` meets concatenation. Whole pieces in front come off
one by one (`pieces_append`, `pieces_flatten_append`), so a string that
is whole pieces followed by fewer bytes than a piece is cut in exactly
one way: `fullPieces` are the whole ones, and the short tail is the last
`length % size` bytes. Each piece is also what stands at its place
(`getElem?_pieces`).
-/

namespace ErasureDigest

namespace Bytes

variable {size : Nat} {bytes front tail : Bytes} {fronts : List Bytes}

/-- The pieces that are full, without the short one at the end. -/
def fullPieces (size : Nat) (bytes : Bytes) : List Bytes :=
  (pieces size bytes).take (bytes.length / size)

/-- A piece in front comes off. -/
theorem pieces_append (hsize : 0 < size) (hfront : front.length = size) :
    pieces size (front ++ tail) = front :: pieces size tail := by
  have hne : front ++ tail ≠ [] := by
    intro h
    have := congrArg List.length h
    simp only [List.length_append, List.length_nil] at this
    omega
  rw [pieces_of_ne_nil hsize hne, List.take_left' hfront, List.drop_left' hfront]

/-- Pieces in front come off one by one. -/
theorem pieces_flatten_append (hsize : 0 < size) (hfronts : ∀ p ∈ fronts, p.length = size) :
    pieces size (fronts.flatten ++ tail) = fronts ++ pieces size tail := by
  induction fronts with
  | nil => rfl
  | cons front fronts ih =>
    have hfront := hfronts front List.mem_cons_self
    rw [List.flatten_cons, List.append_assoc, pieces_append hsize hfront,
      ih fun p hp => hfronts p (List.mem_cons_of_mem _ hp), List.cons_append]

/-- Up to one piece of bytes is a piece by itself. -/
theorem pieces_of_length_le (hsize : 0 < size) (hne : bytes ≠ []) (h : bytes.length ≤ size) :
    pieces size bytes = [bytes] := by
  rw [pieces_of_ne_nil hsize hne, List.take_of_length_le h, List.drop_eq_nil_of_le h, pieces_nil]

/-- Whole pieces are as long as their number says. -/
theorem length_flatten_of_pieces (hfronts : ∀ p ∈ fronts, p.length = size) :
    fronts.flatten.length = fronts.length * size := by
  induction fronts with
  | nil => simp
  | cons front fronts ih =>
    rw [List.flatten_cons, List.length_append, hfronts front List.mem_cons_self,
      ih fun p hp => hfronts p (List.mem_cons_of_mem _ hp), List.length_cons, Nat.succ_mul]
    omega

section Tail

variable (hfronts : ∀ p ∈ fronts, p.length = size) (htail : tail.length < size)
include hfronts htail

/-- The number of whole pieces is the quotient. -/
theorem length_div_of_pieces : (fronts.flatten ++ tail).length / size = fronts.length := by
  rw [List.length_append, length_flatten_of_pieces hfronts, Nat.add_comm,
    Nat.add_mul_div_right _ _ (by omega), Nat.div_eq_of_lt htail, Nat.zero_add]

/-- And the tail is as long as the remainder. -/
theorem length_mod_of_pieces : (fronts.flatten ++ tail).length % size = tail.length := by
  rw [List.length_append, length_flatten_of_pieces hfronts, Nat.add_comm,
    Nat.add_mul_mod_self_right, Nat.mod_eq_of_lt htail]

/-- The whole pieces are the full ones. -/
theorem fullPieces_of_pieces : fullPieces size (fronts.flatten ++ tail) = fronts := by
  rw [fullPieces, length_div_of_pieces hfronts htail,
    pieces_flatten_append (by omega) hfronts, List.take_left]

/-- The tail is the last `length % size` bytes. -/
theorem drop_of_pieces :
    (fronts.flatten ++ tail).drop
      ((fronts.flatten ++ tail).length - (fronts.flatten ++ tail).length % size) = tail := by
  rw [length_mod_of_pieces hfronts htail, List.length_append, Nat.add_sub_cancel, List.drop_left]

end Tail

/-- A string shorter than a piece has no full one. -/
theorem fullPieces_of_length_lt (h : bytes.length < size) : fullPieces size bytes = [] := by
  rw [fullPieces, Nat.div_eq_of_lt h, List.take_zero]

/-- A full piece in front is the first of the full ones. -/
theorem fullPieces_append (hsize : 0 < size) (hfront : front.length = size) :
    fullPieces size (front ++ tail) = front :: fullPieces size tail := by
  have hdiv : (front ++ tail).length / size = tail.length / size + 1 := by
    rw [List.length_append, hfront, Nat.add_comm, Nat.add_div_right _ hsize]
  rw [fullPieces, hdiv, pieces_append hsize hfront, List.take_succ_cons, fullPieces]

/-! ## Pieces by place -/

/-- **A piece is what stands at its place**, cut off where the string
ends. -/
theorem getElem?_pieces (hsize : 0 < size) (bytes : Bytes) (i : Nat) : (pieces size bytes)[i]? =
    if i * size < bytes.length then some ((bytes.drop (i * size)).take size) else none := by
  induction i generalizing bytes with
  | zero =>
    by_cases hne : bytes = []
    · simp [hne]
    · rw [pieces_of_ne_nil hsize hne]
      simp [List.length_pos_iff.2 hne]
  | succ i ih =>
    by_cases hne : bytes = []
    · simp [hne]
    · have hplace : i * size < (bytes.drop size).length ↔ (i + 1) * size < bytes.length := by
        rw [List.length_drop, Nat.succ_mul]
        omega
      rw [pieces_of_ne_nil hsize hne, List.getElem?_cons_succ, ih]
      simp only [hplace, List.drop_drop, Nat.succ_mul, Nat.add_comm size]

theorem getElem_pieces (hsize : 0 < size) {i : Nat} (hi : i < (pieces size bytes).length) :
    i * size < bytes.length ∧ (pieces size bytes)[i] = (bytes.drop (i * size)).take size := by
  have hpiece := getElem?_pieces hsize bytes i
  rw [List.getElem?_eq_getElem hi] at hpiece
  split at hpiece
  · next hplace => exact ⟨hplace, Option.some.inj hpiece⟩
  · simp at hpiece

/-- A piece with another one behind it is full. -/
theorem length_getElem_pieces (hsize : 0 < size) {i : Nat}
    (hi : i + 1 < (pieces size bytes).length) : (pieces size bytes)[i].length = size := by
  have hnext := (getElem_pieces hsize hi).1
  rw [Nat.succ_mul] at hnext
  rw [(getElem_pieces hsize (by omega)).2, List.length_take, List.length_drop]
  omega

/-- So all pieces in front of another are full. -/
theorem length_of_pieces_eq_append (hsize : 0 < size) {last : Bytes} {after : List Bytes}
    (h : pieces size bytes = fronts ++ last :: after) : ∀ p ∈ fronts, p.length = size := by
  intro p hp
  obtain ⟨i, hi, rfl⟩ := List.mem_iff_getElem.1 hp
  have hlt : i + 1 < (pieces size bytes).length := by
    rw [h, List.length_append, List.length_cons]
    omega
  have hpiece : (pieces size bytes).get ⟨i, by omega⟩ = fronts[i] := by
    simp only [List.get_eq_getElem, h, List.getElem_append_left hi]
  rw [← hpiece]
  exact length_getElem_pieces hsize hlt

theorem length_of_mem_dropLast_pieces (hsize : 0 < size) :
    ∀ p ∈ (pieces size bytes).dropLast, p.length = size := by
  by_cases hne : pieces size bytes = []
  · simp [hne]
  · exact length_of_pieces_eq_append hsize (List.dropLast_concat_getLast hne).symm

/-- Pieces behind full ones are the pieces of their concatenation. -/
theorem pieces_flatten_of_pieces_eq_append (hsize : 0 < size) {after : List Bytes}
    (h : pieces size bytes = fronts ++ after) (hfronts : ∀ p ∈ fronts, p.length = size) :
    pieces size after.flatten = after := by
  have hpieces := h
  rw [← flatten_pieces size bytes, h, List.flatten_append, pieces_flatten_append hsize hfronts]
    at hpieces
  exact List.append_cancel_left hpieces

/-- There are as many pieces as the quotient, rounded up. -/
theorem length_pieces (hsize : 0 < size) (bytes : Bytes) :
    (pieces size bytes).length = (bytes.length + size - 1) / size := by
  fun_induction pieces size bytes with
  | case1 bytes hempty =>
    obtain rfl : bytes = [] := by simpa using hempty
    simp [Nat.div_eq_of_lt (Nat.sub_lt hsize Nat.one_pos)]
  | case2 bytes hempty hzero => omega
  | case3 bytes hempty hzero ih =>
    have hne : bytes ≠ [] := by simpa using hempty
    have hpos := List.length_pos_iff.2 hne
    rw [List.length_cons, ih, List.length_drop]
    rcases Nat.lt_or_ge bytes.length size with hlt | hle
    · rw [Nat.sub_eq_zero_of_le (Nat.le_of_lt hlt), Nat.zero_add,
        Nat.div_eq_of_lt (Nat.sub_lt hsize Nat.one_pos),
        show bytes.length + size - 1 = bytes.length - 1 + size by omega,
        Nat.add_div_right _ hsize, Nat.div_eq_of_lt (by omega)]
    · rw [show bytes.length + size - 1 = bytes.length - size + size - 1 + size by omega,
        Nat.add_div_right _ hsize]

/-- A string as long as a number of pieces is cut into that number of
pieces, all of them full. -/
theorem pieces_of_length_eq_mul {count : Nat} (hsize : 0 < size)
    (h : bytes.length = count * size) :
    (pieces size bytes).length = count ∧ ∀ piece ∈ pieces size bytes, piece.length = size := by
  induction count generalizing bytes with
  | zero =>
    obtain rfl : bytes = [] := by simpa using h
    simp
  | succ count ih =>
    rw [Nat.succ_mul] at h
    have hfront : (bytes.take size).length = size := List.length_take_of_le (by omega)
    have htail : (bytes.drop size).length = count * size := by
      rw [List.length_drop]
      omega
    obtain ⟨hlength, hpieces⟩ := ih htail
    rw [← List.take_append_drop size bytes, pieces_append hsize hfront]
    refine ⟨by rw [List.length_cons, hlength], fun piece hpiece => ?_⟩
    rcases List.mem_cons.1 hpiece with rfl | hpiece
    · exact hfront
    · exact hpieces piece hpiece

end Bytes

end ErasureDigest
