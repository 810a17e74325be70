import ErasureDigest.Coding.ReedSolomon
import ErasureDigest.Proofs.Coding.Field
import Mathlib.Data.List.GetD
import Mathlib.LinearAlgebra.Lagrange
import Mathlib.LinearAlgebra.Matrix.NonsingularInverse
import Mathlib.LinearAlgebra.Vandermonde

/-!
# Parity by a matrix

The parity shards of `ReedSolomon` are values of the polynomial through the
data shards. They are also what the rows below the square of a matrix give:
of the Vandermonde matrix of the points, times the inverse of its top
square (`systematic`). That square can be inverted as long as the points
are different elements, for up to 256 data shards (`det_vandermonde_ne_zero`),
and the weights of interpolation are the entries of the product
(`coefficient_eq_systematic`). `combine_eq_parityRow` is the same for whole
rows of bytes.
-/

namespace ErasureDigest

namespace ReedSolomon

open Finset

/-- The Vandermonde matrix: a row for each point, with its powers. -/
def vandermonde (rows columns : Nat) : Matrix (Fin rows) (Fin columns) Gf256 :=
  Matrix.of fun r c => Gf256.ofNat r ^ (c : Nat)

/-- The encoding matrix: the Vandermonde matrix times the inverse of its
top square, so that the top rows give the data back. -/
noncomputable def systematic (rows columns : Nat) : Matrix (Fin rows) (Fin columns) Gf256 :=
  vandermonde rows columns * (vandermonde columns columns)⁻¹

variable {dataShards point column : Nat}

/-! ## The top square -/

theorem injOn_range (hd : dataShards ≤ 256) :
    Set.InjOn Gf256.ofNat (range dataShards : Set Nat) := by
  refine Gf256.ofNat_injOn.mono fun n hn => ?_
  rw [coe_range, Set.mem_Iio] at hn
  exact Nat.lt_of_lt_of_le hn hd

/-- **The top square can be inverted**, its points being different. -/
theorem det_vandermonde_ne_zero (hd : dataShards ≤ 256) :
    (vandermonde dataShards dataShards).det ≠ 0 := by
  have hsquare : vandermonde dataShards dataShards =
      Matrix.vandermonde fun r : Fin dataShards => Gf256.ofNat r := rfl
  rw [hsquare, Matrix.det_vandermonde_ne_zero_iff]
  intro i j h
  exact Fin.ext (injOn_range hd (by simp) (by simp) h)

/-! ## Interpolation -/

/-- A weight of interpolation is a value of the polynomial that is one at
the weight's column and zero at the other points. -/
theorem coefficient_eq_eval (dataShards point column : Nat) :
    coefficient dataShards point column =
      (Lagrange.basis (range dataShards) Gf256.ofNat column).eval (Gf256.ofNat point) := by
  have hprod : ∀ f : Nat → Gf256,
      Gf256.prod (((List.range dataShards).filter (· ≠ column)).map f) =
        ∏ j ∈ (range dataShards).erase column, f j := by
    intro f
    have hset : ((List.range dataShards).filter (· ≠ column)).toFinset =
        (range dataShards).erase column := by
      ext j
      simp [and_comm]
    rw [Gf256.prod_eq, ← hset, List.prod_toFinset f (List.nodup_range.filter _)]
  have hdivisor : ∀ j, (Lagrange.basisDivisor (Gf256.ofNat column) (Gf256.ofNat j)).eval
      (Gf256.ofNat point) =
        (Gf256.ofNat column - Gf256.ofNat j)⁻¹ * (Gf256.ofNat point - Gf256.ofNat j) := by
    intro j
    simp [Lagrange.basisDivisor]
  simp only [coefficient, hprod, Lagrange.basis, Polynomial.eval_prod, hdivisor]
  rw [prod_mul_distrib, prod_inv_distrib, mul_comm, Gf256.inv_def]

/-- **Interpolation is exact**: powers below the number of points are
reproduced. -/
theorem sum_coefficient_mul_pow (hd : dataShards ≤ 256) {k : Nat} (hk : k < dataShards)
    (point : Nat) :
    ∑ c ∈ range dataShards, coefficient dataShards point c * Gf256.ofNat c ^ k =
      Gf256.ofNat point ^ k := by
  have hdegree : (Polynomial.X ^ k : Polynomial Gf256).degree < (range dataShards).card := by
    rw [Polynomial.degree_X_pow, card_range]
    exact_mod_cast hk
  have hinterpolate := Lagrange.eq_interpolate (injOn_range hd) hdegree
  have heval := congrArg (Polynomial.eval (Gf256.ofNat point)) hinterpolate
  simp only [Polynomial.eval_pow, Polynomial.eval_X, Lagrange.interpolate_apply,
    Polynomial.eval_finsetSum, Polynomial.eval_mul, Polynomial.eval_C] at heval
  rw [heval]
  refine sum_congr rfl fun c _ => ?_
  rw [coefficient_eq_eval, mul_comm]

/-- **The weights are the entries of the encoding matrix.** -/
theorem coefficient_eq_systematic (hd : dataShards ≤ 256) {rows : Nat} (r : Fin rows)
    (c : Fin dataShards) : coefficient dataShards r c = systematic rows dataShards r c := by
  have hproduct : (Matrix.of fun (r : Fin rows) (c : Fin dataShards) => coefficient dataShards r c) *
      vandermonde dataShards dataShards = vandermonde rows dataShards := by
    ext r k
    rw [Matrix.mul_apply]
    exact (Fin.sum_univ_eq_sum_range
      (fun c => coefficient dataShards r c * Gf256.ofNat c ^ (k : Nat)) dataShards).trans
      (sum_coefficient_mul_pow hd k.isLt r)
  rw [systematic, ← hproduct, Matrix.mul_nonsing_inv_cancel_right _ _
    (isUnit_iff_ne_zero.2 (det_vandermonde_ne_zero hd))]
  rfl

/-! ## Rows of bytes -/

/-- The element at an offset of a row. -/
def element (row : Bytes) (offset : Nat) : Gf256 := ⟨row.getD offset 0⟩

/-- What a row of the encoding matrix gives from data rows of `size`
bytes, offset by offset. -/
def parityRow (weights : Fin dataShards → Gf256) (size : Nat) (rows : List Bytes) : Bytes :=
  List.ofFn fun offset : Fin size =>
    (∑ c : Fin dataShards, weights c * element (rows.getD c []) offset).byte

variable {size offset : Nat} {rows : List Bytes} {weight : Gf256} {row total : Bytes}

theorem element_eq_getElem (h : offset < row.length) : element row offset = ⟨row[offset]⟩ := by
  rw [element, List.getD_eq_getElem _ _ h]

/-- Rows of one size with the same elements are the same. -/
theorem eq_of_element (hrow : row.length = size) (htotal : total.length = size)
    (h : ∀ offset < size, element row offset = element total offset) : row = total := by
  refine List.ext_getElem (by rw [hrow, htotal]) fun offset hr ht => ?_
  have helement := h offset (by omega)
  rw [element_eq_getElem hr, element_eq_getElem ht] at helement
  exact congrArg Gf256.byte helement

theorem length_parityRow (weights : Fin dataShards → Gf256) (size : Nat) (rows : List Bytes) :
    (parityRow weights size rows).length = size := List.length_ofFn

theorem element_parityRow (weights : Fin dataShards → Gf256) (rows : List Bytes)
    (hoffset : offset < size) : element (parityRow weights size rows) offset =
      ∑ c : Fin dataShards, weights c * element (rows.getD c []) offset := by
  rw [element_eq_getElem (by rw [length_parityRow]; exact hoffset)]
  simp only [parityRow, List.getElem_ofFn]

/-- Adding a multiple of a row keeps the size. -/
theorem length_addScaled (weight : Gf256) (hrow : row.length = size)
    (htotal : total.length = size) : (addScaled weight row total).length = size := by
  rw [addScaled, List.length_zipWith, hrow, htotal, Nat.min_self]

/-- And adds the multiple at each offset. -/
theorem element_addScaled (hrow : row.length = size) (htotal : total.length = size)
    (hoffset : offset < size) : element (addScaled weight row total) offset =
      element total offset + weight * element row offset := by
  have hlength : offset < (addScaled weight row total).length := by
    rw [length_addScaled weight hrow htotal]
    exact hoffset
  rw [element_eq_getElem hlength, element_eq_getElem (by omega), element_eq_getElem (by omega)]
  simp only [addScaled, List.getElem_zipWith]

/-- Adding multiples of rows of one size keeps it, and at each offset adds
the multiples there. -/
theorem foldl_addScaled (pairs : List (Gf256 × Bytes)) (hpairs : ∀ p ∈ pairs, p.2.length = size)
    (htotal : total.length = size) :
    (pairs.foldl (fun total p => addScaled p.1 p.2 total) total).length = size ∧
      ∀ offset < size,
        element (pairs.foldl (fun total p => addScaled p.1 p.2 total) total) offset =
          element total offset + (pairs.map fun p => p.1 * element p.2 offset).sum := by
  induction pairs generalizing total with
  | nil => exact ⟨htotal, fun offset _ => by simp⟩
  | cons pair rest ih =>
    have hpair := hpairs pair List.mem_cons_self
    have hrest := fun p hp => hpairs p (List.mem_cons_of_mem pair hp)
    obtain ⟨hlength, helement⟩ := ih hrest (length_addScaled pair.1 hpair htotal)
    refine ⟨hlength, fun offset hoffset => ?_⟩
    rw [List.foldl_cons, helement offset hoffset, element_addScaled hpair htotal hoffset,
      List.map_cons, List.sum_cons, add_assoc]

section Combine

variable (weights : List Gf256) (hrows : ∀ row ∈ rows, row.length = size)
include hrows

/-- A combination of rows has their size. -/
theorem length_combine : (combine size weights rows).length = size :=
  (foldl_addScaled _ (fun _ hp => hrows _ (List.of_mem_zip hp).2) List.length_replicate).1

/-- And at each offset it is the sum of the multiples there. -/
theorem element_combine (hoffset : offset < size) : element (combine size weights rows) offset =
    ((weights.zip rows).map fun p => p.1 * element p.2 offset).sum := by
  have hzero : element (List.replicate size 0) offset = 0 := by
    rw [element_eq_getElem (by simpa using hoffset), List.getElem_replicate]
    rfl
  have hfold := (foldl_addScaled (weights.zip rows) (fun _ hp => hrows _ (List.of_mem_zip hp).2)
    (List.length_replicate (n := size) (a := 0))).2 offset hoffset
  rw [hzero, zero_add] at hfold
  exact hfold

end Combine

/-- The weights with the rows they belong to. -/
theorem zip_weights (hcount : rows.length = dataShards) (point : Nat) :
    (weights dataShards point).zip rows =
      (List.range dataShards).map fun c => (coefficient dataShards point c, rows.getD c []) := by
  refine List.ext_getElem (by simp [weights, hcount]) fun c hc hc' => ?_
  have hlt : c < rows.length := by
    rw [List.length_map, List.length_range] at hc'
    omega
  simp [weights, List.getElem?_eq_getElem hlt]

/-- Interpolating whole rows, offset by offset. -/
theorem element_combine_weights (hcount : rows.length = dataShards)
    (hrows : ∀ row ∈ rows, row.length = size) (point : Nat) (hoffset : offset < size) :
    element (combine size (weights dataShards point) rows) offset =
      ∑ c ∈ range dataShards, coefficient dataShards point c * element (rows.getD c []) offset := by
  rw [element_combine _ hrows hoffset, zip_weights hcount, List.map_map]
  rfl

/-- **Interpolating whole rows is what the encoding matrix does.** -/
theorem combine_eq_parityRow (hd : dataShards ≤ 256) {count : Nat} (r : Fin count)
    (hcount : rows.length = dataShards) (hrows : ∀ row ∈ rows, row.length = size) :
    combine size (weights dataShards r) rows =
      parityRow (systematic count dataShards r) size rows := by
  refine eq_of_element (length_combine _ hrows) (length_parityRow _ _ _) fun offset hoffset => ?_
  rw [element_combine_weights hcount hrows _ hoffset, element_parityRow _ _ hoffset]
  calc ∑ c ∈ range dataShards, coefficient dataShards r c * element (rows.getD c []) offset
      = ∑ c : Fin dataShards, coefficient dataShards r c * element (rows.getD c []) offset :=
        (Fin.sum_univ_eq_sum_range
          (fun c => coefficient dataShards r c * element (rows.getD c []) offset) _).symm
    _ = ∑ c : Fin dataShards,
          systematic count dataShards r c * element (rows.getD c []) offset := by
        refine sum_congr rfl fun c _ => ?_
        rw [coefficient_eq_systematic hd r c]

end ReedSolomon

end ErasureDigest
