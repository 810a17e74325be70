/-!
# Whole numbers in text

Numbers on a command line and in the environment are decimal digits, with a
plus sign allowed in front, and fit 64 bits. Reading takes back what writing
gives (`Numeral.parse?_ofWord`).

However many digits a text has, only numbers up to a limit matter. Digits
are therefore taken in with the limit as the largest value, which gives the
smaller of the limit and the number (`Numeral.capped_eq`), or only until the
limit is reached, which gives the number where it is below the limit
(`Numeral.leading_eq`).
-/

namespace ErasureDigest

namespace Numeral

/-- The number that digits of a base stand for. -/
def ofDigits (base : Nat) (digits : List Nat) : Nat :=
  digits.foldl (fun n d => base * n + d) 0

/-- The number that digits of a base stand for, or the limit where the number
is larger. -/
def capped (base limit : Nat) (digits : List Nat) : Nat :=
  digits.foldl (fun n d => min limit (base * n + d)) 0

theorem foldl_min {base limit : Nat} (hbase : 0 < base) (digits : List Nat) (n : Nat) :
    digits.foldl (fun n d => min limit (base * n + d)) (min limit n) =
      min limit (digits.foldl (fun n d => base * n + d) n) := by
  induction digits generalizing n with
  | nil => rfl
  | cons d rest ih =>
    have : min limit (base * min limit n + d) = min limit (base * n + d) := by
      rcases Nat.le_total limit n with h | h
      · have hle := Nat.le_mul_of_pos_left limit hbase
        have hmono := Nat.mul_le_mul_left base h
        rw [Nat.min_eq_left h]
        omega
      · rw [Nat.min_eq_right h]
    simp only [List.foldl_cons, this, ih]

/-- The limit changes nothing below it, and stands for everything above. -/
theorem capped_eq {base limit : Nat} (hbase : 0 < base) (digits : List Nat) :
    capped base limit digits = min limit (ofDigits base digits) := by
  have := @foldl_min base limit hbase digits 0
  rwa [Nat.min_eq_right (Nat.zero_le limit)] at this

/-- The number that the first digits stand for, each taken in unless those
before it have reached the limit. -/
def leading (base limit : Nat) (digits : List Nat) : Nat :=
  digits.foldl (fun n d => if n < limit then base * n + d else n) 0

theorem le_foldl {base : Nat} (hbase : 0 < base) (digits : List Nat) (n : Nat) :
    n ≤ digits.foldl (fun n d => base * n + d) n := by
  induction digits generalizing n with
  | nil => exact Nat.le_refl n
  | cons d rest ih =>
    have := Nat.le_mul_of_pos_left n hbase
    have := ih (base * n + d)
    rw [List.foldl_cons]
    omega

theorem foldl_leading {base limit : Nat} (hbase : 0 < base) (digits : List Nat) (n : Nat)
    (h : digits.foldl (fun n d => base * n + d) n < limit) :
    digits.foldl (fun n d => if n < limit then base * n + d else n) n =
      digits.foldl (fun n d => base * n + d) n := by
  induction digits generalizing n with
  | nil => rfl
  | cons d rest ih =>
    have := le_foldl hbase (d :: rest) n
    simp only [List.foldl_cons] at h this ⊢
    rw [if_pos (by omega), ih _ h]

/-- Below the limit no digit is passed over. -/
theorem leading_eq {base limit : Nat} (hbase : 0 < base) {digits : List Nat}
    (h : ofDigits base digits < limit) : leading base limit digits = ofDigits base digits :=
  foldl_leading hbase digits 0 h

/-- The number in decimal digits. -/
def ofWord (n : UInt64) : String :=
  String.ofList (Nat.toDigits 10 n.toNat)

/-- A text without a plus sign at its front. -/
def unsigned (text : List Char) : List Char :=
  if text.head? = some '+' then text.tail else text

/-- The value of a decimal digit. -/
def digitOf (c : Char) : Nat := c.toNat - '0'.toNat

/-- The number of 64 bits that a text stands for. -/
def parse? (text : String) : Option UInt64 :=
  let digits := unsigned text.toList
  if digits.isEmpty || !digits.all Char.isDigit then none
  else
    let n := capped 10 (Nat.pow 2 64) (digits.map digitOf)
    if n < Nat.pow 2 64 then some (UInt64.ofNat n) else none

theorem unsigned_toDigits (n : Nat) : unsigned (Nat.toDigits 10 n) = Nat.toDigits 10 n := by
  unfold unsigned
  split
  · next h =>
    have := Nat.isDigit_of_mem_toDigits (b := 10) (by decide) (by decide) (List.mem_of_head? h)
    simp at this
  · rfl

theorem ofDigits_map_digitOf (digits : List Char) :
    ofDigits 10 (digits.map digitOf) = Nat.ofDigitChars 10 digits 0 := by
  simp only [ofDigits, List.foldl_map, Nat.ofDigitChars, digitOf]

/-- Reading takes back what writing gives. -/
theorem parse?_ofWord (n : UInt64) : parse? (ofWord n) = some n := by
  have hdigits : (Nat.toDigits 10 n.toNat).all Char.isDigit := by
    rw [List.all_eq_true]
    exact fun c hc => Nat.isDigit_of_mem_toDigits (by decide) (by decide) hc
  have hne : (Nat.toDigits 10 n.toNat).isEmpty = false := by
    simp [List.isEmpty_eq_false_iff, Nat.toDigits_ne_nil]
  have hn : capped 10 (Nat.pow 2 64) ((Nat.toDigits 10 n.toNat).map digitOf) = n.toNat := by
    rw [capped_eq (by decide), ofDigits_map_digitOf,
      Nat.ofDigitChars_toDigits (b := 10) (n := n.toNat) (by decide) (by decide)]
    exact Nat.min_eq_right (Nat.le_of_lt n.toNat_lt)
  simp only [parse?, ofWord, String.toList_ofList, unsigned_toDigits, hdigits, hne, Bool.not_true,
    Bool.or_self, hn, if_pos n.toNat_lt, UInt64.ofNat_toNat]
  rfl

end Numeral

end ErasureDigest
