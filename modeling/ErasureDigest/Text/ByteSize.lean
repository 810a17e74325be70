/-!
# Sizes for people

A number of bytes in the largest unit it reaches, with two decimal places.
The number is first taken to the 53 binary digits of a double; the division
by a power of two is exact, and the places are rounded once. Both roundings
go to the nearest, a half to the even neighbour (`two_mul_roundQuotient_le`
and `le_two_mul_roundQuotient`).
-/

namespace ErasureDigest

namespace ByteSize

/-- The whole number nearest to a quotient; a half goes to the even
neighbour. -/
def roundQuotient (num den : Nat) : Nat :=
  let low := num / den
  let twice := 2 * (num % den)
  if twice < den then low
  else if den < twice then low + 1
  else low + low % 2

/-- A rounded quotient is at most a half too large. -/
theorem two_mul_roundQuotient_le (num den : Nat) :
    2 * (den * roundQuotient num den) ≤ 2 * num + den := by
  have h := Nat.div_add_mod num den
  unfold roundQuotient
  simp only
  split
  · omega
  · split
    · rw [Nat.mul_add]; omega
    · rcases Nat.mod_two_eq_zero_or_one (num / den) with he | he <;>
        simp only [he, Nat.mul_add] <;> omega

/-- A rounded quotient is at most a half too small. -/
theorem le_two_mul_roundQuotient (num : Nat) {den : Nat} (hden : 0 < den) :
    2 * num ≤ 2 * (den * roundQuotient num den) + den := by
  have h := Nat.div_add_mod num den
  have hlt := Nat.mod_lt num hden
  unfold roundQuotient
  simp only
  split
  · omega
  · split
    · rw [Nat.mul_add]; omega
    · rcases Nat.mod_two_eq_zero_or_one (num / den) with he | he <;>
        simp only [he, Nat.mul_add] <;> omega

/-- A number with its first 53 binary digits, rounded. -/
def toDouble (n : Nat) : Nat :=
  let unit := Nat.pow 2 (n.log2 + 1 - 53)
  roundQuotient n unit * unit

/-- A number in a unit, with two decimal places. -/
def inUnit (n unit : Nat) : String :=
  let hundredths := roundQuotient (100 * toDouble n) unit
  let places := hundredths % 100
  s!"{hundredths / 100}.{places / 10}{places % 10}"

/-- A number of bytes in words. -/
def words (n : Nat) : String :=
  if Nat.pow 2 30 ≤ n then inUnit n (Nat.pow 2 30) ++ " GB"
  else if Nat.pow 2 20 ≤ n then inUnit n (Nat.pow 2 20) ++ " MB"
  else if Nat.pow 2 10 ≤ n then inUnit n (Nat.pow 2 10) ++ " KB"
  else s!"{n} B"

end ByteSize

end ErasureDigest
