import ErasureDigest.Coding.Gf256
import Mathlib.Data.FinEnum
import Mathlib.GroupTheory.OrderOfElement
import Mathlib.Tactic.NormNum.Prime
import Mathlib.Tactic.Ring

/-!
# The bytes are a field

The operations of `Gf256` obey the laws of a field. Sums are taken bit by
bit and so are a commutative group. A product is a sum of repeated doubles,
one for each set bit of the second factor, so it is additive in both
factors and a double comes out of either (`double_mul`, `mul_double`).
Every element comes about from zero and one by doubling and adding
(`induction`), and the remaining laws of multiplication follow by that
induction. The doubles of one run through all elements but zero
(`orderOf_two`, `exists_eq_two_pow`), hence the power 254 is the inverse.
-/

namespace ErasureDigest

namespace Gf256

theorem ext {a b : Gf256} (h : a.byte = b.byte) : a = b := by
  cases a; cases b; simp_all

/-! ## Sums -/

instance : Neg Gf256 := ⟨id⟩

instance : AddCommGroup Gf256 where
  add_assoc a b c := ext (UInt8.xor_assoc a.byte b.byte c.byte)
  zero_add _ := ext UInt8.zero_xor
  add_zero _ := ext UInt8.xor_zero
  add_comm a b := ext (UInt8.xor_comm a.byte b.byte)
  neg_add_cancel _ := ext UInt8.xor_self
  sub_eq_add_neg _ _ := rfl
  nsmul := nsmulRec
  zsmul := zsmulRec

theorem byte_add (a b : Gf256) : (a + b).byte = a.byte ^^^ b.byte := rfl

theorem byte_one : (1 : Gf256).byte = 1 := rfl

/-! ## Doubling -/

/-- The lowest bit of a sum is the sum of the lowest bits. -/
theorem xor_and_one (x y : UInt8) : (x ^^^ y) &&& 1 = (x &&& 1) ^^^ (y &&& 1) := by
  apply UInt8.eq_of_toBitVec_eq
  ext i
  simp [Bool.and_xor_distrib_right]

/-- And a lowest bit is zero or one. -/
theorem and_one_cases : ∀ x : UInt8, x &&& 1 = 0 ∨ x &&& 1 = 1 := by
  decide +kernel

/-- A gate is additive in what it lets through. -/
theorem gate_add (b i : UInt8) (a c : Gf256) : gate b i (a + c) = gate b i a ^^^ gate b i c := by
  unfold gate
  split
  · rfl
  · rfl

/-- And in the byte that opens it. -/
theorem gate_xor (b c i : UInt8) (a : Gf256) : gate (b ^^^ c) i a = gate b i a ^^^ gate c i a := by
  unfold gate
  rw [UInt8.shiftRight_xor, xor_and_one]
  rcases and_one_cases (b >>> i) with hb | hb
  · simp [hb]
  · rcases and_one_cases (c >>> i) with hc | hc <;> simp [hb, hc]

/-- Doubling shifts, and the bit that falls out comes back as the four
lower terms of the modulus. -/
theorem double_eq (a : Gf256) : a.double = ⟨(a.byte <<< 1) ^^^ gate a.byte 7 ⟨0x1d⟩⟩ := by
  have htop : ∀ x : UInt8, x &&& 0x80 = 0 ↔ (x >>> 7) &&& 1 = 0 := by decide +kernel
  unfold double gate
  simp only [htop]
  split <;> simp

/-- **Doubling is additive.** -/
theorem double_add (a b : Gf256) : (a + b).double = a.double + b.double := by
  apply ext
  simp only [double_eq, byte_add, UInt8.shiftLeft_xor, gate_xor]
  ac_rfl

/-- It goes through a gate. -/
theorem double_gate (b i : UInt8) (a : Gf256) : double ⟨gate b i a⟩ = ⟨gate b i a.double⟩ := by
  unfold gate
  split
  · rfl
  · rfl

/-! ## Products -/

/-- A product, as a sum. -/
theorem mul_eq (a b : Gf256) : a * b =
    ⟨gate b.byte 0 a⟩ + ⟨gate b.byte 1 a.double⟩ + ⟨gate b.byte 2 a.double.double⟩ +
      ⟨gate b.byte 3 a.double.double.double⟩ + ⟨gate b.byte 4 a.double.double.double.double⟩ +
      ⟨gate b.byte 5 a.double.double.double.double.double⟩ +
      ⟨gate b.byte 6 a.double.double.double.double.double.double⟩ +
      ⟨gate b.byte 7 a.double.double.double.double.double.double.double⟩ := rfl

protected theorem add_mul (a b c : Gf256) : (a + b) * c = a * c + b * c := by
  apply ext
  simp only [mul_eq, double_add, byte_add, gate_add]
  ac_rfl

protected theorem mul_add (a b c : Gf256) : a * (b + c) = a * b + a * c := by
  apply ext
  simp only [mul_eq, byte_add, gate_xor]
  ac_rfl

/-- A double comes out of the first factor. -/
theorem double_mul (a b : Gf256) : a.double * b = (a * b).double := by
  simp only [mul_eq, double_add, double_gate]

protected theorem zero_mul (a : Gf256) : 0 * a = 0 := by
  have h := Gf256.add_mul 0 0 a
  rw [add_zero] at h
  exact left_eq_add.1 h

protected theorem mul_zero (a : Gf256) : a * 0 = 0 := by
  have h := Gf256.mul_add a 0 0
  rw [add_zero] at h
  exact left_eq_add.1 h

/-- One opens the first gate alone. -/
protected theorem mul_one (a : Gf256) : a * 1 = a := by
  have hshut : ∀ i ∈ ([1, 2, 3, 4, 5, 6, 7] : List UInt8), ∀ b, gate 1 i b = 0 := by
    intro i hi b
    have hbit : ∀ i ∈ ([1, 2, 3, 4, 5, 6, 7] : List UInt8), (1 >>> i) &&& (1 : UInt8) = 0 := by
      decide +kernel
    exact if_pos (hbit i hi)
  apply ext
  simp only [mul_eq, byte_add, byte_one]
  rw [hshut 1 (by simp), hshut 2 (by simp), hshut 3 (by simp), hshut 4 (by simp), hshut 5 (by simp),
    hshut 6 (by simp), hshut 7 (by simp)]
  simp [gate]

protected theorem one_mul : ∀ a : Gf256, 1 * a = a := by
  intro ⟨byte⟩
  revert byte
  decide +kernel

/-- **Every element comes about from zero and one by doubling and
adding**: it is its own product with one. -/
theorem induction {motive : Gf256 → Prop} (zero : motive 0) (one : motive 1)
    (double : ∀ a, motive a → motive a.double)
    (add : ∀ a b, motive a → motive b → motive (a + b)) (a : Gf256) : motive a := by
  have hgate : ∀ i b, motive b → motive ⟨gate a.byte i b⟩ := by
    intro i b hb
    unfold gate
    split
    · exact zero
    · exact hb
  have h1 := double _ one
  have h2 := double _ h1
  have h3 := double _ h2
  have h4 := double _ h3
  have h5 := double _ h4
  have h6 := double _ h5
  have h7 := double _ h6
  have s1 := add _ _ (hgate 0 _ one) (hgate 1 _ h1)
  have s2 := add _ _ s1 (hgate 2 _ h2)
  have s3 := add _ _ s2 (hgate 3 _ h3)
  have s4 := add _ _ s3 (hgate 4 _ h4)
  have s5 := add _ _ s4 (hgate 5 _ h5)
  have s6 := add _ _ s5 (hgate 6 _ h6)
  have s7 := add _ _ s6 (hgate 7 _ h7)
  rw [← Gf256.one_mul a, mul_eq]
  exact s7

/-- And a double comes out of the second factor. -/
theorem mul_double (a b : Gf256) : a * b.double = (a * b).double := by
  induction a using induction with
  | zero => rw [Gf256.zero_mul, Gf256.zero_mul]; rfl
  | one => rw [Gf256.one_mul, Gf256.one_mul]
  | double a ih => rw [double_mul, ih, double_mul]
  | add a c iha ihc => rw [Gf256.add_mul, Gf256.add_mul, iha, ihc, double_add]

protected theorem mul_comm (a b : Gf256) : a * b = b * a := by
  induction b using induction with
  | zero => rw [Gf256.zero_mul, Gf256.mul_zero]
  | one => rw [Gf256.one_mul, Gf256.mul_one]
  | double b ih => rw [double_mul, mul_double, ih]
  | add b c ihb ihc => rw [Gf256.add_mul, Gf256.mul_add, ihb, ihc]

protected theorem mul_assoc (a b c : Gf256) : a * b * c = a * (b * c) := by
  induction c using induction with
  | zero => rw [Gf256.mul_zero, Gf256.mul_zero, Gf256.mul_zero]
  | one => rw [Gf256.mul_one, Gf256.mul_one]
  | double c ih => rw [mul_double, mul_double, mul_double, ih]
  | add c d ihc ihd => rw [Gf256.mul_add, Gf256.mul_add, Gf256.mul_add, ihc, ihd]

instance : CommRing Gf256 where
  __ := (inferInstance : AddCommGroup Gf256)
  mul_assoc := Gf256.mul_assoc
  one_mul := Gf256.one_mul
  mul_one := Gf256.mul_one
  left_distrib := Gf256.mul_add
  right_distrib := Gf256.add_mul
  mul_comm := Gf256.mul_comm
  zero_mul := Gf256.zero_mul
  mul_zero := Gf256.mul_zero

/-! ## Inverses -/

/-- There are as many elements as bytes. -/
def equivByte : Gf256 ≃ UInt8 := ⟨byte, mk, fun _ => rfl, fun _ => rfl⟩

instance : Fintype Gf256 := Fintype.ofEquiv UInt8 equivByte.symm

theorem card_eq : Fintype.card Gf256 = 256 := by
  rw [Fintype.card_congr equivByte, ← FinEnum.card_eq_fintypeCard]
  rfl

section Powers

/-- The powers of two that tell its order: 255 is three times five times
seventeen. -/
theorem two_pow_15 : ofNat 2 ^ 15 = ofNat 38 := by
  decide +kernel

theorem two_pow_51 : ofNat 2 ^ 51 = ofNat 10 := by
  rw [show 51 = 15 * 3 + 6 from rfl, pow_add, pow_mul, two_pow_15]
  decide +kernel

theorem two_pow_85 : ofNat 2 ^ 85 = ofNat 214 := by
  rw [show 85 = 15 * 5 + 10 from rfl, pow_add, pow_mul, two_pow_15]
  decide +kernel

theorem two_pow_255 : ofNat 2 ^ 255 = 1 := by
  rw [show 255 = 85 * 3 from rfl, pow_mul, two_pow_85]
  decide +kernel

end Powers

/-- **Two generates the elements but zero.** -/
theorem orderOf_two : orderOf (ofNat 2) = 255 := by
  refine orderOf_eq_of_pow_and_pow_div_prime (by decide) two_pow_255 ?_
  intro p hp hdvd
  have hfactors : p ∣ 3 * 5 * 17 := hdvd
  rw [hp.dvd_mul, hp.dvd_mul, Nat.prime_dvd_prime_iff_eq hp (by norm_num),
    Nat.prime_dvd_prime_iff_eq hp (by norm_num), Nat.prime_dvd_prime_iff_eq hp (by norm_num)]
    at hfactors
  rcases hfactors with (rfl | rfl) | rfl
  · rw [show 255 / 3 = 85 from rfl, two_pow_85]
    decide
  · rw [show 255 / 5 = 51 from rfl, two_pow_51]
    decide
  · rw [show 255 / 17 = 15 from rfl, two_pow_15]
    decide

/-- A power of two is not zero, since a further power of it is one. -/
theorem two_pow_ne_zero (k : Nat) : ofNat 2 ^ k ≠ 0 := by
  intro h
  have hone : (ofNat 2 ^ k) ^ 255 = 1 := by
    rw [← pow_mul, Nat.mul_comm, pow_mul, two_pow_255, one_pow]
  rw [h] at hone
  exact absurd hone (by decide)

/-- So all elements but zero are powers of two: there are 255 of both. -/
theorem exists_eq_two_pow {a : Gf256} (ha : a ≠ 0) : ∃ k, a = ofNat 2 ^ k := by
  have hinj : Set.InjOn (fun k => ofNat 2 ^ k) (Finset.range 255 : Set Nat) := by
    have := pow_injOn_Iio_orderOf (x := ofNat 2)
    rw [orderOf_two] at this
    simpa using this
  have hsub : (Finset.range 255).image (fun k => ofNat 2 ^ k) ⊆ Finset.univ.erase 0 := by
    intro b hb
    obtain ⟨k, -, rfl⟩ := Finset.mem_image.1 hb
    exact Finset.mem_erase.2 ⟨two_pow_ne_zero k, Finset.mem_univ _⟩
  have hcard : (Finset.univ.erase (0 : Gf256)).card ≤
      ((Finset.range 255).image fun k => ofNat 2 ^ k).card := by
    rw [Finset.card_image_of_injOn hinj, Finset.card_range,
      Finset.card_erase_of_mem (Finset.mem_univ _), Finset.card_univ, card_eq]
  have hall := Finset.eq_of_subset_of_card_le hsub hcard
  have hmem : a ∈ Finset.univ.erase (0 : Gf256) := Finset.mem_erase.2 ⟨ha, Finset.mem_univ _⟩
  rw [← hall] at hmem
  obtain ⟨k, -, hk⟩ := Finset.mem_image.1 hmem
  exact ⟨k, hk.symm⟩

/-- The inverse is the power 254. -/
theorem inv_eq_pow (a : Gf256) : a.inv = a ^ 254 := by
  unfold inv
  ring

/-- **An element but zero times its inverse is one.** -/
protected theorem mul_inv_cancel {a : Gf256} (ha : a ≠ 0) : a * a.inv = 1 := by
  obtain ⟨k, rfl⟩ := exists_eq_two_pow ha
  calc ofNat 2 ^ k * (ofNat 2 ^ k).inv
      = (ofNat 2 ^ k) ^ 255 := by rw [inv_eq_pow, ← pow_succ']
    _ = (ofNat 2 ^ 255) ^ k := by rw [← pow_mul, ← pow_mul, Nat.mul_comm]
    _ = 1 := by rw [two_pow_255, one_pow]

instance : Inv Gf256 := ⟨inv⟩

theorem inv_def (a : Gf256) : a⁻¹ = a.inv := rfl

instance : Field Gf256 where
  __ := (inferInstance : CommRing Gf256)
  exists_pair_ne := ⟨0, 1, by decide⟩
  mul_inv_cancel _ := Gf256.mul_inv_cancel
  inv_zero := by
    rw [inv_def, inv_eq_pow]
    rfl
  nnqsmul := _
  qsmul := _

/-! ## Numbers as elements -/

/-- Numbers below 256 are different elements. -/
theorem ofNat_injOn : Set.InjOn ofNat (Set.Iio 256) := by
  intro m hm n hn h
  have hbyte : UInt8.ofNat m = UInt8.ofNat n := congrArg byte h
  have hnat := congrArg UInt8.toNat hbyte
  rw [Set.mem_Iio] at hm hn
  rw [UInt8.toNat_ofNat', UInt8.toNat_ofNat'] at hnat
  omega

/-- The product of a list is that of its elements. -/
theorem prod_eq (elements : List Gf256) : prod elements = elements.prod := by
  rw [prod, List.prod_eq_foldl]

end Gf256

end ErasureDigest
