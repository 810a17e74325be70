import ErasureDigest.Text.Numeral

/-!
# Decimal digits

What readers of numbers need to know of the digits that a number is written in:
which characters they are not, that they begin with a zero for zero alone, and
that taking them in below a limit gives the number back.
-/

namespace ErasureDigest

namespace Numeral

/-- A digit is no other character. -/
theorem ne_of_isDigit {c d : Char} (hc : c.isDigit = true) (hd : d.isDigit = false) : c ≠ d := by
  rintro rfl
  rw [hc] at hd
  cases hd

theorem isDigit_of_mem {n : Nat} {c : Char} (hc : c ∈ Nat.toDigits 10 n) : c.isDigit = true :=
  Nat.isDigit_of_mem_toDigits (by decide) (by decide) hc

/-- Digits of a number begin with a zero for zero alone. -/
theorem eq_zero_of_head?_toDigits {n : Nat} (h : (Nat.toDigits 10 n).head? = some '0') : n = 0 := by
  induction n using Nat.strongRecOn with
  | ind n ih =>
    rcases Nat.lt_or_ge n 10 with hlt | hle
    · have hdigit : ∀ m < 10, Nat.digitChar m = '0' → m = 0 := by decide
      rw [Nat.toDigits_of_lt_base hlt] at h
      exact hdigit n hlt (Option.some.inj h)
    · rw [Nat.toDigits_of_base_le (by decide) hle, List.head?_append] at h
      cases hfront : (Nat.toDigits 10 (n / 10)).head? with
      | none => exact absurd (List.head?_eq_none_iff.1 hfront) Nat.toDigits_ne_nil
      | some c =>
        rw [hfront] at h
        have := ih (n / 10) (by omega) (hfront.trans h)
        omega

/-- Up to the limit, digits give the number they were written for. -/
theorem capped_toDigits {n limit : Nat} (h : n ≤ limit) :
    capped 10 limit ((Nat.toDigits 10 n).map digitOf) = n := by
  rw [capped_eq (by decide), ofDigits_map_digitOf,
    Nat.ofDigitChars_toDigits (by decide) (by decide)]
  exact Nat.min_eq_right h

end Numeral

end ErasureDigest
