/-!
# The shortest decimal of a double

A finite double is a whole number times a power of two, and stands for all
reals that round to it. Its text has the fewest digits that lie among those
reals, the nearest of them if there are two, the even one on a tie. The
search is done in exact arithmetic on whole numbers.
-/

namespace ErasureDigest

namespace ShortDecimal

/-- A positive finite double: `mantissa` times two to the `exponent`. -/
structure Binary where
  mantissa : Nat
  exponent : Int
  /-- Whether the next smaller double is only half as far as the next
  larger. -/
  narrowBelow : Bool
  deriving DecidableEq, Repr

/-- The double with these bits, the sign aside. -/
def Binary.ofBits (bits : UInt64) : Binary :=
  let e := ((bits >>> 52) &&& 0x7ff).toNat
  let f := (bits &&& 0xfffffffffffff).toNat
  if e = 0 then ⟨f, -1074, false⟩
  else ⟨Nat.pow 2 52 + f, (e : Int) - 1075, f = 0 && e > 1⟩

/-- A decimal: `digits` times ten to the `exponent`. -/
structure Decimal where
  digits : Nat
  exponent : Int
  deriving DecidableEq, Repr

/-- Compares `a` times ten to the `i` with `n` times two to the `j`. -/
def compareScaled (a : Nat) (i : Int) (n : Nat) (j : Int) : Ordering :=
  compare (a * Nat.pow 10 i.toNat * Nat.pow 2 (-j).toNat)
    (n * Nat.pow 2 j.toNat * Nat.pow 10 (-i).toNat)

/-- Whether a decimal is among the reals that round to a double. -/
def Binary.readsBack (x : Binary) (d : Decimal) : Bool :=
  let low := if x.narrowBelow then 4 * x.mantissa - 1 else 4 * x.mantissa - 2
  let high := 4 * x.mantissa + 2
  let even := x.mantissa % 2 == 0
  let toLow := compareScaled d.digits d.exponent low (x.exponent - 2)
  let toHigh := compareScaled d.digits d.exponent high (x.exponent - 2)
  (toLow == .gt || (even && toLow == .eq)) && (toHigh == .lt || (even && toHigh == .eq))

/-- The largest power of ten not above a double, searched downwards from
`start` in at most `count` steps. -/
def Binary.magnitude (x : Binary) : (count : Nat) → (start : Int) → Int
  | 0, start => start
  | count + 1, start =>
    if compareScaled 1 start x.mantissa x.exponent == .gt then x.magnitude count (start - 1)
    else start

/-- The whole multiples of ten to the `i` in a double. -/
def Binary.quotient (x : Binary) (i : Int) : Nat :=
  (x.mantissa * Nat.pow 2 x.exponent.toNat * Nat.pow 10 (-i).toNat) /
    (Nat.pow 10 i.toNat * Nat.pow 2 (-x.exponent).toNat)

/-- The decimal of `length` digits that reads back, if there is one. -/
def Binary.ofLength? (x : Binary) (magnitude : Int) (length : Nat) : Option Decimal :=
  let i := magnitude + 1 - length
  let below : Decimal := ⟨x.quotient i, i⟩
  let above : Decimal := ⟨x.quotient i + 1, i⟩
  match x.readsBack below, x.readsBack above with
  | true, false => some below
  | false, true => some above
  | false, false => none
  | true, true =>
    match compareScaled (2 * below.digits + 1) i (2 * x.mantissa) x.exponent with
    | .gt => some below
    | .lt => some above
    | .eq => some (if below.digits % 2 = 0 then below else above)

/-- The decimal with the fewest digits that reads back. -/
def Binary.shortest (x : Binary) : Decimal :=
  let magnitude := x.magnitude 700 309
  ((List.range 17).findSome? fun n => x.ofLength? magnitude (n + 1)).getD
    ⟨x.quotient (magnitude - 17), magnitude - 17⟩

/-- The digits without the zeros at their end, and the power of ten of the
first. -/
def Decimal.digitsAndMagnitude (d : Decimal) : List Char × Int :=
  let digits := Nat.toDigits 10 d.digits
  ((digits.reverse.dropWhile (· = '0')).reverse, d.exponent + digits.length - 1)

/-- Digits laid out with a point: plainly while the first digit stands
within sixteen places before the point or five after it, otherwise with a
signed power of ten. -/
def layOut (digits : List Char) (magnitude : Int) : List Char :=
  if 0 ≤ magnitude ∧ magnitude ≤ 15 then
    let whole := magnitude.toNat + 1
    if digits.length ≤ whole then
      digits ++ List.replicate (whole - digits.length) '0' ++ ['.', '0']
    else digits.take whole ++ '.' :: digits.drop whole
  else if -5 ≤ magnitude ∧ magnitude < 0 then
    ['0', '.'] ++ List.replicate ((-magnitude).toNat - 1) '0' ++ digits
  else
    let head := match digits with
      | first :: second :: rest => first :: '.' :: second :: rest
      | short => short
    head ++ 'e' :: (if magnitude < 0 then '-' else '+') :: Nat.toDigits 10 magnitude.natAbs

end ShortDecimal

/-- The text of a finite double, with at least one digit after the point
unless a power of ten is written. -/
def shortDecimal (x : Float) : String :=
  let bits := x.toBits
  let sign := if bits >>> 63 = 1 then ['-'] else []
  let binary := ShortDecimal.Binary.ofBits bits
  if binary.mantissa = 0 then String.ofList (sign ++ ['0', '.', '0'])
  else
    let (digits, magnitude) := binary.shortest.digitsAndMagnitude
    String.ofList (sign ++ ShortDecimal.layOut digits magnitude)

end ErasureDigest
