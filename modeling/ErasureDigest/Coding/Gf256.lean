/-!
# The field of 256 elements

A byte is a polynomial over the field of two elements, its bits the
coefficients; sums are taken bit by bit and products modulo
x^8 + x^4 + x^3 + x^2 + 1. The inverse is the power 254, since the
non-zero elements form a group of order 255.
-/

namespace ErasureDigest

/-- An element of the field of 256 elements. -/
structure Gf256 where
  byte : UInt8
  deriving DecidableEq, Repr

namespace Gf256

instance : Zero Gf256 := ⟨⟨0⟩⟩
instance : One Gf256 := ⟨⟨1⟩⟩
instance : Inhabited Gf256 := ⟨0⟩

/-- The element whose byte is the number. -/
def ofNat (n : Nat) : Gf256 := ⟨UInt8.ofNat n⟩

/-- Sum, and also difference. -/
@[inline] def add (a b : Gf256) : Gf256 := ⟨a.byte ^^^ b.byte⟩

/-- Product with x: a shift, reduced when the degree reaches eight. -/
@[inline] def double (a : Gf256) : Gf256 :=
  if a.byte &&& 0x80 = 0 then ⟨a.byte <<< 1⟩ else ⟨(a.byte <<< 1) ^^^ 0x1d⟩

/-- The element if bit `i` of the byte is set, otherwise zero. -/
@[inline] def gate (b : UInt8) (i : UInt8) (a : Gf256) : UInt8 :=
  if (b >>> i) &&& 1 = 0 then 0 else a.byte

/-- Product: the sum of `a` times x to the i over the set bits i of
`b`. -/
def mul (a b : Gf256) : Gf256 :=
  let a1 := a.double
  let a2 := a1.double
  let a3 := a2.double
  let a4 := a3.double
  let a5 := a4.double
  let a6 := a5.double
  let a7 := a6.double
  ⟨gate b.byte 0 a ^^^ gate b.byte 1 a1 ^^^ gate b.byte 2 a2 ^^^ gate b.byte 3 a3 ^^^
    gate b.byte 4 a4 ^^^ gate b.byte 5 a5 ^^^ gate b.byte 6 a6 ^^^ gate b.byte 7 a7⟩

instance : Add Gf256 := ⟨add⟩
instance : Sub Gf256 := ⟨add⟩
instance : Mul Gf256 := ⟨mul⟩

/-- The inverse of a non-zero element, as its power 254; zero for
zero. -/
def inv (a : Gf256) : Gf256 :=
  let a2 := a * a
  let a4 := a2 * a2
  let a8 := a4 * a4
  let a16 := a8 * a8
  let a32 := a16 * a16
  let a64 := a32 * a32
  let a128 := a64 * a64
  a2 * a4 * a8 * a16 * a32 * a64 * a128

/-- The product of a list of elements. -/
def prod (elements : List Gf256) : Gf256 :=
  elements.foldl (· * ·) 1

end Gf256

end ErasureDigest
