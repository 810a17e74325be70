import ErasureDigest.Proofs.Coding.Interpolation
import ErasureDigest.Proofs.Coding.Shards

/-!
# What the rows of a segment tell

At every offset the rows of a segment are the values of one polynomial, at
as many points as there are rows and of a degree below the number of data
rows (`element_row_eq_eval`). So any that many rows determine the segment,
its length given (`eq_of_row`): the padding is the same for all segments of
one length.

A byte of a segment stands in one data row (`element_row_of_lt`), and every
parity row has it with a weight that is not zero (`coefficient_ne_zero`).
Where two segments differ in the bytes of one data row only, the other data
rows are equal, and that row and all parity rows differ
(`row_eq_of_differsAt`, `eq_of_row_of_differsAt`).
-/

namespace ErasureDigest

namespace ReedSolomon

open Finset

/-- The row of a segment at a position. -/
def row (layout : Layout) (position : Nat) (segment : Bytes) : Bytes :=
  (rows layout segment).getD position []

/-- The polynomial through the data at an offset. -/
noncomputable def polynomialAt (dataShards : Nat) (data : List Bytes) (offset : Nat) :
    Polynomial Gf256 :=
  Lagrange.interpolate (range dataShards) Gf256.ofNat fun c => element (data.getD c []) offset

/-- **Two segments of one length that differ in the bytes of one data row
only.** -/
structure DiffersAt (layout : Layout) (position : Nat) (segment segment' : Bytes) : Prop where
  length_eq : segment.length = segment'.length
  /-- A byte belongs to the row that its offset divided by the size of the
  rows says. -/
  position_eq : ∀ offset, element segment offset ≠ element segment' offset →
    offset / shardSize layout.dataShards.toNat segment.length = position

variable {layout : Layout} {segment segment' : Bytes} {position offset : Nat}

/-! ## Rows, offset by offset -/

/-- Every place of a segment is in a data row. -/
theorem place_lt {dataShards length place : Nat} (hd : 0 < dataShards) (hplace : place < length) :
    place / shardSize dataShards length < dataShards ∧
      place % shardSize dataShards length < shardSize dataShards length := by
  have hle := length_le_mul_shardSize hd length
  have hpos : 0 < shardSize dataShards length := shardSize_pos hd (by omega)
  exact ⟨Nat.div_lt_of_lt_mul (by rw [Nat.mul_comm]; omega), Nat.mod_lt _ hpos⟩

/-- And a place in a row tells the row. -/
theorem mul_add_div_of_lt {row size : Nat} (hoffset : offset < size) :
    (row * size + offset) / size = row := by
  rw [Nat.mul_comm, Nat.mul_add_div (by omega), Nat.div_eq_of_lt hoffset, Nat.add_zero]

/-- A part of a string has the elements at its place. -/
theorem element_take_drop (bytes : Bytes) (start : Nat) {count : Nat} (hoffset : offset < count) :
    element ((bytes.drop start).take count) offset = element bytes (start + offset) := by
  simp only [element, List.getD_eq_getElem?_getD, List.getElem?_take_of_lt hoffset,
    List.getElem?_drop]

theorem row_of_lt (hlayout : layout.Valid) (hsegment : segment ≠ [])
    (hposition : position < layout.dataShards.toNat) :
    row layout position segment = (dataRows layout.dataShards.toNat segment).getD position [] := by
  have hlt : position < (dataRows layout.dataShards.toNat segment).length := by
    rw [(dataRows_spec hlayout.1 hsegment).1]
    exact hposition
  simp [row, rows, List.getElem?_append_left hlt]

theorem row_of_le (hlayout : layout.Valid) (hsegment : segment ≠ [])
    (hdata : layout.dataShards.toNat ≤ position) (hposition : position < layout.totalShards) :
    row layout position segment = combine (shardSize layout.dataShards.toNat segment.length)
      (weights layout.dataShards.toNat position) (dataRows layout.dataShards.toNat segment) := by
  have hlength := (dataRows_spec hlayout.1 hsegment).1
  have hparity : position - layout.dataShards.toNat < layout.parityShards.toNat := by
    rw [Layout.totalShards] at hposition
    omega
  rw [row, rows, List.getD_eq_getElem?_getD, List.getElem?_append_right (by omega), hlength]
  simp [parityWeights, hparity, Nat.add_sub_cancel' hdata]

/-- All rows of a segment have one size. -/
theorem length_row (hlayout : layout.Valid) (hsegment : segment ≠ [])
    (hposition : position < layout.totalShards) :
    (row layout position segment).length =
      shardSize layout.dataShards.toNat segment.length := by
  obtain ⟨hlength, hdata⟩ := dataRows_spec hlayout.1 hsegment
  rcases Nat.lt_or_ge position layout.dataShards.toNat with hlt | hle
  · rw [row_of_lt hlayout hsegment hlt, List.getD_eq_getElem _ _ (by omega)]
    exact hdata _ (List.getElem_mem _)
  · rw [row_of_le hlayout hsegment hle hposition]
    exact length_combine _ hdata

/-- The bytes of a data row are bytes of the segment, and zeros behind its
end. -/
theorem element_row_of_lt (hlayout : layout.Valid) (hsegment : segment ≠ [])
    (hposition : position < layout.dataShards.toNat)
    (hoffset : offset < shardSize layout.dataShards.toNat segment.length) :
    element (row layout position segment) offset = element segment
      (position * shardSize layout.dataShards.toNat segment.length + offset) := by
  have hpos : 0 < shardSize layout.dataShards.toNat segment.length := by omega
  have hplace : position * shardSize layout.dataShards.toNat segment.length <
      (padded layout.dataShards.toNat segment).length := by
    rw [length_padded hlayout.1]
    exact Nat.mul_lt_mul_of_pos_right hposition hpos
  rw [row_of_lt hlayout hsegment hposition, dataRows, List.getD_eq_getElem?_getD,
    Bytes.getElem?_pieces hpos, if_pos hplace, Option.getD_some,
    element_take_drop _ _ hoffset]
  simp only [element, List.getD_eq_getElem?_getD, padded]
  congr 1
  -- what stands behind the segment is zero, as is what is missing there
  rcases Nat.lt_or_ge (position * shardSize layout.dataShards.toNat segment.length + offset)
    segment.length with hlt | hle
  · rw [List.getElem?_append_left hlt]
  · rw [List.getElem?_append_right hle, List.getElem?_eq_none hle, List.getElem?_replicate]
    split <;> rfl

/-- So each byte of a segment stands in one of its data rows. -/
theorem element_row_place (hlayout : layout.Valid) {length place : Nat}
    (hlength : segment.length = length) (hplace : place < length) :
    element (row layout (place / shardSize layout.dataShards.toNat length) segment)
      (place % shardSize layout.dataShards.toNat length) = element segment place := by
  subst hlength
  have hsegment : segment ≠ [] := by
    rw [← List.length_pos_iff]
    omega
  obtain ⟨hcolumn, hoffset⟩ := place_lt hlayout.1 hplace
  rw [element_row_of_lt hlayout hsegment hcolumn hoffset, Nat.div_add_mod']

/-- And those of a parity row are sums over the data rows. -/
theorem element_row_of_le (hlayout : layout.Valid) (hsegment : segment ≠ [])
    (hdata : layout.dataShards.toNat ≤ position) (hposition : position < layout.totalShards)
    (hoffset : offset < shardSize layout.dataShards.toNat segment.length) :
    element (row layout position segment) offset =
      ∑ c ∈ range layout.dataShards.toNat, coefficient layout.dataShards.toNat position c *
        element (row layout c segment) offset := by
  obtain ⟨hlength, hsize⟩ := dataRows_spec hlayout.1 hsegment
  rw [row_of_le hlayout hsegment hdata hposition,
    element_combine_weights hlength hsize position hoffset]
  refine sum_congr rfl fun c hc => ?_
  rw [row_of_lt hlayout hsegment (mem_range.1 hc)]

/-! ## Any rows, as many as there are of data -/

theorem degree_polynomialAt_lt {dataShards : Nat} (hd : dataShards ≤ 256) (data : List Bytes)
    (offset : Nat) : (polynomialAt dataShards data offset).degree < dataShards := by
  have hdegree := Lagrange.degree_interpolate_lt (s := range dataShards)
    (fun c => element (data.getD c []) offset) (injOn_range hd)
  rwa [card_range] at hdegree

/-- **At every offset the rows are the values of one polynomial.** -/
theorem element_row_eq_eval (hlayout : layout.Valid) (hsegment : segment ≠ [])
    (hposition : position < layout.totalShards)
    (hoffset : offset < shardSize layout.dataShards.toNat segment.length) :
    element (row layout position segment) offset =
      (polynomialAt layout.dataShards.toNat (dataRows layout.dataShards.toNat segment)
        offset).eval (Gf256.ofNat position) := by
  have hd := hlayout.dataShards_le
  rcases Nat.lt_or_ge position layout.dataShards.toNat with hlt | hle
  · rw [row_of_lt hlayout hsegment hlt, polynomialAt,
      Lagrange.eval_interpolate_at_node _ (injOn_range hd) (mem_range.2 hlt)]
  · obtain ⟨hlength, hsize⟩ := dataRows_spec hlayout.1 hsegment
    rw [row_of_le hlayout hsegment hle hposition,
      element_combine_weights hlength hsize position hoffset, polynomialAt,
      Lagrange.interpolate_apply, Polynomial.eval_finsetSum]
    refine sum_congr rfl fun c _ => ?_
    rw [Polynomial.eval_mul, Polynomial.eval_C, coefficient_eq_eval, mul_comm]

/-- **Any rows, as many as there are of data, determine the segment**, its
length given. -/
theorem eq_of_row (hlayout : layout.Valid) (hsegment : segment ≠ [])
    (hlength : segment.length = segment'.length) {positions : Finset Nat}
    (hcard : layout.dataShards.toNat ≤ positions.card)
    (hrows : ∀ position ∈ positions, position < layout.totalShards ∧
      row layout position segment = row layout position segment') : segment = segment' := by
  have hd := hlayout.dataShards_le
  have hsegment' : segment' ≠ [] := by
    rw [← List.length_pos_iff] at hsegment ⊢
    omega
  have hpoints : Set.InjOn Gf256.ofNat (positions : Set Nat) := by
    refine Gf256.ofNat_injOn.mono fun position hposition => ?_
    exact Nat.lt_of_lt_of_le (hrows position hposition).1 hlayout.2
  have hcard' : (layout.dataShards.toNat : WithBot Nat) ≤ positions.card := by
    exact_mod_cast hcard
  -- the polynomials have the same values at the points of these rows
  have hpolynomial : ∀ offset < shardSize layout.dataShards.toNat segment.length,
      polynomialAt layout.dataShards.toNat (dataRows layout.dataShards.toNat segment) offset =
        polynomialAt layout.dataShards.toNat (dataRows layout.dataShards.toNat segment')
          offset := by
    intro offset hoffset
    refine Polynomial.eq_of_degrees_lt_of_eval_index_eq positions hpoints
      (lt_of_lt_of_le (degree_polynomialAt_lt hd _ _) hcard')
      (lt_of_lt_of_le (degree_polynomialAt_lt hd _ _) hcard') fun position hposition => ?_
    obtain ⟨hlt, hrow⟩ := hrows position hposition
    rw [← element_row_eq_eval hlayout hsegment hlt hoffset, hrow,
      element_row_eq_eval hlayout hsegment' hlt (by rwa [← hlength])]
  have hsize : 0 < shardSize layout.dataShards.toNat segment.length :=
    shardSize_pos hlayout.1 (List.length_pos_iff.2 hsegment)
  refine eq_of_element rfl hlength.symm fun place hplace => ?_
  -- the byte stands in a data row, which is a value of the polynomial too
  obtain ⟨hcolumn, hoffset⟩ := place_lt hlayout.1 hplace
  have hcolumn' := Layout.lt_totalShards hcolumn
  rw [← element_row_place hlayout rfl hplace, ← element_row_place hlayout hlength.symm hplace,
    element_row_eq_eval hlayout hsegment hcolumn' hoffset, hpolynomial _ hoffset,
    element_row_eq_eval hlayout hsegment' hcolumn' (by rwa [← hlength])]

/-! ## A difference in one data row -/

/-- **No data row is left out of a parity row**: the weights are not
zero. -/
theorem coefficient_ne_zero {dataShards point column : Nat} (hpoint : point < 256)
    (hdata : dataShards ≤ point) (hcolumn : column < dataShards) :
    coefficient dataShards point column ≠ 0 := by
  have hinj := injOn_range (show dataShards ≤ 256 by omega)
  have hmem : column ∈ range dataShards := mem_range.2 hcolumn
  -- the point of a parity row is none of the points of data rows
  have hoff : ∀ c ∈ range dataShards, Gf256.ofNat point ≠ Gf256.ofNat c := by
    intro c hc heq
    have hlt := mem_range.1 hc
    have := Gf256.ofNat_injOn (Set.mem_Iio.2 hpoint) (Set.mem_Iio.2 (by omega)) heq
    omega
  rw [coefficient_eq_eval, Lagrange.eval_basis_not_at_node hmem (hoff column hmem)]
  exact mul_ne_zero (Lagrange.eval_nodal_not_at_node hoff)
    (mul_ne_zero (Lagrange.nodalWeight_ne_zero hinj hmem)
      (inv_ne_zero (sub_ne_zero.2 (hoff column hmem))))

/-- Two segments that differ do so in a data row. -/
theorem lt_of_differsAt (hlayout : layout.Valid) (h : DiffersAt layout position segment segment')
    (hne : segment ≠ segment') : position < layout.dataShards.toNat := by
  by_contra hle
  refine hne (eq_of_element rfl h.length_eq.symm fun place hplace => ?_)
  by_contra hdiffers
  have hcolumn := (place_lt hlayout.1 hplace).1
  rw [h.position_eq place hdiffers] at hcolumn
  exact hle hcolumn

theorem ne_nil_of_differsAt (hsegment : segment ≠ [])
    (h : DiffersAt layout position segment segment') : segment' ≠ [] := by
  have hlength := h.length_eq
  rw [← List.length_pos_iff] at hsegment ⊢
  omega

section DiffersAt

variable {other : Nat} (hlayout : layout.Valid) (hsegment : segment ≠ [])
  (h : DiffersAt layout position segment segment')
include hlayout hsegment h

/-- The other data rows are equal. -/
theorem row_eq_of_differsAt (hother : other < layout.dataShards.toNat) (hne : other ≠ position) :
    row layout other segment = row layout other segment' := by
  have hsegment' := ne_nil_of_differsAt hsegment h
  have htotal := Layout.lt_totalShards hother
  refine eq_of_element (length_row hlayout hsegment htotal)
    (by rw [length_row hlayout hsegment' htotal, h.length_eq]) fun offset hoffset => ?_
  rw [element_row_of_lt hlayout hsegment hother hoffset,
    element_row_of_lt hlayout hsegment' hother (by rwa [← h.length_eq]), ← h.length_eq]
  by_contra hdiffers
  have hposition := h.position_eq _ hdiffers
  rw [mul_add_div_of_lt hoffset] at hposition
  exact hne hposition

/-- **That row and every parity row tell the difference.** -/
theorem eq_of_row_of_differsAt (hother : other < layout.totalShards)
    (htells : other = position ∨ layout.dataShards.toNat ≤ other)
    (hrow : row layout other segment = row layout other segment') : segment = segment' := by
  have hsegment' := ne_nil_of_differsAt hsegment h
  refine eq_of_element rfl h.length_eq.symm fun place hplace => ?_
  by_contra hdiffers
  obtain ⟨hcolumn, hoffset⟩ := place_lt hlayout.1 hplace
  have hplaced := element_row_place hlayout rfl hplace
  have hplaced' := element_row_place hlayout h.length_eq.symm hplace
  rw [h.position_eq place hdiffers] at hcolumn hplaced hplaced'
  rcases htells with rfl | hparity
  · rw [← hplaced, ← hplaced', hrow] at hdiffers
    exact hdiffers rfl
  · -- the other terms of the two sums are equal, and so are those of the position
    have hothers : ∑ c ∈ (range layout.dataShards.toNat).erase position,
        coefficient layout.dataShards.toNat other c * element (row layout c segment')
          (place % shardSize layout.dataShards.toNat segment.length) =
        ∑ c ∈ (range layout.dataShards.toNat).erase position,
          coefficient layout.dataShards.toNat other c * element (row layout c segment)
            (place % shardSize layout.dataShards.toNat segment.length) := by
      refine sum_congr rfl fun c hc => ?_
      obtain ⟨hne, hlt⟩ := mem_erase.1 hc
      rw [row_eq_of_differsAt hlayout hsegment h (mem_range.1 hlt) hne]
    have hsum := element_row_of_le hlayout hsegment hparity hother hoffset
    rw [hrow, element_row_of_le hlayout hsegment' hparity hother (by rwa [← h.length_eq]),
      ← add_sum_erase _ _ (mem_range.2 hcolumn), ← add_sum_erase _ _ (mem_range.2 hcolumn),
      hothers, add_left_inj, hplaced, hplaced'] at hsum
    have hpoint : other < 256 := Nat.lt_of_lt_of_le hother hlayout.2
    exact hdiffers (mul_left_cancel₀ (coefficient_ne_zero hpoint hparity hcolumn) hsum).symm

end DiffersAt

end ReedSolomon

end ErasureDigest
