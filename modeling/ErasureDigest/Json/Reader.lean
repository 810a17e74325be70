import ErasureDigest.Error
import ErasureDigest.Text.Numeral
import ErasureDigest.Text.Quoted
import ErasureDigest.Text.ShortDecimal

/-!
# Reading JSON

A reader takes a value of an expected shape from the front of a text. The
first problem in reading order is the fault: the text ends too early, it is
not well formed, or it is well formed so far and has the wrong shape. Fields
with unknown names are skipped at any depth, and nothing in them but their
form is looked at.

Every step of a reader takes a character, so a bound on the length of the
whole text bounds all that is done with it.
-/

namespace ErasureDigest

-- a sum of numbers starts at the literal zero, whatever else is imported
attribute [local instance (1100)] Zero.ofOfNat0

namespace Json

/-- A value found where another was expected. -/
inductive Found
  | null
  | boolean (value : Bool)
  | integer (value : Int)
  | float (value : Float)
  | text (value : String)
  | sequence
  | map

/-- The value as messages show it. -/
def Found.describe : Found → String
  | null => "null"
  | boolean value => s!"boolean `{value}`"
  | integer value => s!"integer `{value}`"
  | float value => s!"floating point `{shortDecimal value}`"
  | text value => s!"string {Quoted.ofString value}"
  | sequence => "sequence"
  | map => "map"

/-- How a well-formed value misses the expected shape. -/
inductive Mismatch
  | type (found : Found) (expected : String)
  /-- A whole number out of the range of the expected type. -/
  | range (value : Int) (expected : String)
  /-- A list that is too short. -/
  | length (count : Nat) (expected : String)
  | missingField (name : String)
  | duplicateField (name : String)
  | unknownVariant (name : String) (variants : List String)
  /-- A text that spells no checksum. -/
  | checksum (error : Error)

/-- The names in backquotes, as messages list what may stand somewhere. -/
def oneOf (names : List String) : String :=
  " or ".intercalate (names.map fun name => "`" ++ name ++ "`")

/-- The mismatch in words. -/
def Mismatch.message : Mismatch → String
  | type found expected => s!"invalid type: {found.describe}, expected {expected}"
  | range value expected => s!"invalid value: integer `{value}`, expected {expected}"
  | length count expected => s!"invalid length {count}, expected {expected}"
  | missingField name => s!"missing field `{name}`"
  | duplicateField name => s!"duplicate field `{name}`"
  | unknownVariant name variants => s!"unknown variant `{name}`, expected {oneOf variants}"
  | checksum error => error.message

/-- Why a text could not be read. -/
inductive Fault
  /-- The text ends too early. -/
  | truncated
  /-- The text is not well formed. -/
  | malformed
  /-- The text is well formed so far and has the wrong shape. -/
  | mismatch (mismatch : Mismatch)

/-- Reads a value from the front of a text and leaves what follows, under a
bound that the text is shorter than. -/
abbrev Reader := ReaderT Nat (StateT (List Char) (Except Fault))

namespace Reader

/-- The bound that the text is shorter than. -/
def bound : Reader Nat := fun count => pure count

/-! ## Characters -/

/-- Whether a character may stand between tokens. -/
def isBlank (c : Char) : Bool :=
  c = ' ' || c = '\n' || c = '\t' || c = '\r'

/-- The next character after blanks, left in place; a text that ends here
is truncated. -/
def peek : Reader Char := do
  let text := (← get).dropWhile isBlank
  match text with
  | [] => throw .truncated
  | c :: _ =>
    set text
    pure c

/-- Leaves the next character behind. -/
def advance : Reader Unit := modify fun text => text.drop 1

/-- Takes the next character. -/
def take : Reader Char := do
  match ← get with
  | [] => throw .truncated
  | c :: rest =>
    set rest
    pure c

/-- Takes the rest of a word whose first character has been seen. -/
def word : List Char → Reader Unit
  | [] => pure ()
  | expected :: rest => do
    let c ← take
    if c = expected then word rest else throw .malformed

/-! ## Texts -/

/-- The value of four hexadecimal digits. Fewer than four bytes left mean
that the text ends too early. -/
def hex4 : Reader Nat := do
  let text ← get
  match text with
  | a :: b :: c :: d :: rest =>
    match Hex.value? a, Hex.value? b, Hex.value? c, Hex.value? d with
    | some a, some b, some c, some d =>
      set rest
      pure (((a * 16 + b) * 16 + c) * 16 + d)
    | _, _, _, _ => throw .malformed
  | short =>
    -- characters beyond ASCII count for each of their bytes
    if (short.map Char.utf8Size).sum < 4 then throw .truncated else throw .malformed

/-- The character of a `\u` escape, which may take two of them. -/
def unicodeEscape : Reader Char := do
  let n ← hex4
  if 0xdc00 ≤ n ∧ n ≤ 0xdfff then throw .malformed
  if n < 0xd800 ∨ 0xdbff < n then pure (Char.ofNat n)
  else
    if (← take) ≠ '\\' then throw .malformed
    if (← take) ≠ 'u' then throw .malformed
    let low ← hex4
    if low < 0xdc00 ∨ 0xdfff < low then throw .malformed
    pure (Char.ofNat ((n - 0xd800) * 0x400 + (low - 0xdc00) + 0x10000))

/-- The character of an escape whose backslash has been taken. -/
def escaped : Reader Char := do
  match ← take with
  | '"' => pure '"'
  | '\\' => pure '\\'
  | '/' => pure '/'
  | 'b' => pure '\x08'
  | 'f' => pure '\x0c'
  | 'n' => pure '\n'
  | 'r' => pure '\r'
  | 't' => pure '\t'
  | 'u' => unicodeEscape
  | _ => throw .malformed

/-- The characters up to the closing quote, `seen` in reverse in front of
them; at most `count` characters are taken. -/
def quotedTail : (count : Nat) → (seen : List Char) → Reader (List Char)
  | 0, _ => throw .truncated
  | count + 1, seen => do
    let c ← take
    if c = '"' then pure seen.reverse
    else if c = '\\' then
      let e ← escaped
      quotedTail count (e :: seen)
    else if c.toNat < 32 then throw .malformed
    else quotedTail count (c :: seen)

/-- A text whose opening quote has been taken. -/
def quoted : Reader String := do
  let chars ← quotedTail (← bound) []
  pure (String.ofList chars)

/-! ## Numbers -/

/-- A JSON number. Whole numbers that fit 64 bits are exact, all others are
doubles. -/
inductive Number
  | natural (value : UInt64)
  | negative (value : Int)
  | float (value : Float)

/-- The largest whole number of 64 bits. -/
def maxNumber : Nat := Nat.pow 2 64 - 1

/-- The largest power of ten that is told from larger ones. No text is long
enough for its digits to make up for it. -/
def maxExponent : Nat := Nat.pow 2 64

/-- The leading digits of a number as far as they fit 64 bits, and the
power of ten they are to be taken with. -/
structure Significand where
  value : Nat
  exponent : Int

/-- Takes in the digits before the point: once one does not fit, each
counts as a power of ten. -/
def Significand.takeWhole (s : Significand) : List Nat → Significand
  | [] => s
  | d :: rest =>
    if s.value * 10 + d ≤ maxNumber then takeWhole ⟨s.value * 10 + d, s.exponent⟩ rest
    else ⟨s.value, s.exponent + (rest.length + 1 : Nat)⟩

/-- Takes in the digits after the point, up to the first that does not
fit. -/
def Significand.takeFraction (s : Significand) : List Nat → Significand
  | [] => s
  | d :: rest =>
    if s.value * 10 + d ≤ maxNumber then takeFraction ⟨s.value * 10 + d, s.exponent - 1⟩ rest
    else s

/-- Lowers the power of ten of a tiny double until it can be divided
away. -/
def divideDown : (count : Nat) → Float → Int → Float
  | 0, _, _ => 0
  | count + 1, x, exponent =>
    if -308 ≤ exponent then x / Float.ofScientific 1 false exponent.natAbs
    else if x == 0 then x
    else divideDown count (x / Float.ofScientific 1 false 308) (exponent + 308)

/-- The double nearest to the significand, scaled by its power of ten; none
if that is too large. -/
def Significand.toFloat? (s : Significand) : Option Float :=
  let x := (UInt64.ofNat s.value).toFloat
  if 0 ≤ s.exponent then
    if s.exponent ≤ 308 then
      let scaled := x * Float.ofScientific 1 false s.exponent.natAbs
      if scaled.isInf then none else some scaled
    else if s.value = 0 then some 0
    else none
  else some (divideDown 4 x s.exponent)

/-- The digits at the front of the text. -/
def digitRun : Reader (List Nat) := do
  let text ← get
  set (text.dropWhile Char.isDigit)
  pure ((text.takeWhile Char.isDigit).map fun c => c.toNat - 48)

/-- The digits before the point; a zero stands alone. -/
def wholePart : Reader (List Nat) := do
  let c ← take
  if c = '0' then
    match ← get with
    | d :: _ => if d.isDigit then throw .malformed else pure [0]
    | [] => pure [0]
  else if c.isDigit then
    let rest ← digitRun
    pure ((c.toNat - 48) :: rest)
  else throw .malformed

/-- The digits after a point, if one stands here; there is at least one. -/
def fractionPart? : Reader (Option (List Nat)) := do
  match ← get with
  | '.' :: rest =>
    set rest
    let digits ← digitRun
    if digits.isEmpty then
      if (← get).isEmpty then throw .truncated else throw .malformed
    pure (some digits)
  | _ => pure none

/-- The power of ten after the letter e, if one stands here. -/
def exponentPart? : Reader (Option Int) := do
  match ← get with
  | c :: rest =>
    if c = 'e' ∨ c = 'E' then
      let negative := rest.head? = some '-'
      set (if negative ∨ rest.head? = some '+' then rest.drop 1 else rest)
      let first ← take
      if !first.isDigit then throw .malformed
      let digits ← digitRun
      let n := Numeral.capped 10 maxExponent ((first.toNat - 48) :: digits)
      pure (some (if negative then -(n : Int) else n))
    else pure none
  | [] => pure none

/-- A number whose sign has been taken. -/
def numberTail (positive : Bool) : Reader Number := do
  let whole ← wholePart
  let fraction? ← fractionPart?
  let exponent? ← exponentPart?
  let n := Numeral.capped 10 (maxNumber + 1) whole
  match fraction?, exponent?, positive, decide (n ≤ maxNumber) with
  | none, none, true, true => pure (.natural (UInt64.ofNat n))
  | _, _, _, _ =>
    if fraction?.isNone ∧ exponent?.isNone ∧ n ≠ 0 ∧ n ≤ Nat.pow 2 63 then
      pure (.negative (-(n : Int)))
    else
      let s := (Significand.mk 0 0).takeWhole whole
      let s := s.takeFraction (fraction?.getD [])
      match (Significand.mk s.value (s.exponent + exponent?.getD 0)).toFloat? with
      | none => throw .malformed
      | some x => pure (.float (if positive then x else -x))

/-- The number as a value found. -/
def Number.found : Number → Found
  | natural value => .integer value.toNat
  | negative value => .integer value
  | float value => .float value

/-! ## Values of the wrong shape -/

/-- Reads what stands here and fails, something else being expected. -/
def unexpected {α : Type} (expected : String) : Reader α := do
  let fail (found : Found) : Reader α := throw (.mismatch (.type found expected))
  let c ← peek
  match c with
  | 'n' => do advance; word ['u', 'l', 'l']; fail .null
  | 't' => do advance; word ['r', 'u', 'e']; fail (.boolean true)
  | 'f' => do advance; word ['a', 'l', 's', 'e']; fail (.boolean false)
  | '"' => do advance; let s ← quoted; fail (.text s)
  | '[' => fail .sequence
  | '\x7b' => fail .map
  | '-' => do advance; let n ← numberTail false; fail n.found
  | c =>
    if c.isDigit then do
      let n ← numberTail true
      fail n.found
    else throw .malformed

/-! ## Values that are skipped -/

/-- Skips a text whose opening quote has been taken. Escapes are looked at
for their form only. -/
def skipQuoted : (count : Nat) → Reader Unit
  | 0 => throw .truncated
  | count + 1 => do
    let c ← take
    if c = '"' then pure ()
    else if c = '\\' then
      let e ← take
      if e = 'u' then
        let _ ← hex4
        skipQuoted count
      else if "\"\\/bfnrt".toList.contains e then skipQuoted count
      else throw .malformed
    else if c.toNat < 32 then throw .malformed
    else skipQuoted count

/-- Skips at least one digit. -/
def skipDigits : Reader Unit := do
  let digits ← digitRun
  if digits.isEmpty then throw .malformed

/-- Skips a number whose sign has been taken. A number that breaks off is
not well formed. -/
def skipNumber : Reader Unit := do
  match ← get with
  | '0' :: rest =>
    set rest
    if (rest.head?.map Char.isDigit).getD false then throw .malformed
  | _ => skipDigits
  if (← get).head? = some '.' then
    advance
    skipDigits
  match ← get with
  | c :: rest =>
    if c = 'e' ∨ c = 'E' then
      set (if rest.head? = some '-' ∨ rest.head? = some '+' then rest.drop 1 else rest)
      skipDigits
  | [] => pure ()

/-- An enclosing list or object whose end has not been seen. -/
inductive Frame
  | list
  | object
  deriving DecidableEq

/-- The character that ends what is enclosed. -/
def Frame.closing : Frame → Char
  | list => ']'
  | object => '\x7d'

/-- Skips the name of a field, of at most `count` characters, and the colon
after it. -/
def skipName (count : Nat) : Reader Unit := do
  if (← peek) ≠ '"' then throw .malformed
  advance
  skipQuoted count
  if (← peek) ≠ ':' then throw .malformed
  advance

/-- Goes on after a value: ends what is complete and passes the comma to
the next value. Gives the frames still open, or nothing if all are
complete. -/
def afterValue (count : Nat) : List Frame → Reader (Option (List Frame))
  | [] => pure none
  | frame :: outer => do
    let c ← peek
    if c = frame.closing then
      advance
      afterValue count outer
    else if c = ',' then
      advance
      if frame = .object then skipName count
      pure (some (frame :: outer))
    else throw .malformed

/-- Enters a list or object, ending it at once if it is empty. -/
def enter (count : Nat) (frame : Frame) (outer : List Frame) : Reader (Option (List Frame)) := do
  advance
  if (← peek) = frame.closing then
    advance
    afterValue count outer
  else
    if frame = .object then skipName count
    pure (some (frame :: outer))

/-- Skips the start of a value inside the open frames, and what ends with
it, texts in it having at most `count` characters. Gives the frames still
open, or nothing if all are complete. -/
def skipStep (count : Nat) (frames : List Frame) : Reader (Option (List Frame)) := do
  match ← peek with
  | 'n' => do advance; word ['u', 'l', 'l']; afterValue count frames
  | 't' => do advance; word ['r', 'u', 'e']; afterValue count frames
  | 'f' => do advance; word ['a', 'l', 's', 'e']; afterValue count frames
  | '"' => do advance; skipQuoted count; afterValue count frames
  | '[' => enter count .list frames
  | '\x7b' => enter count .object frames
  | '-' => do advance; skipNumber; afterValue count frames
  | c => if c.isDigit then do skipNumber; afterValue count frames else throw .malformed

/-- Skips values until no frame is open, in at most `count` steps. -/
def skipAll : (count : Nat) → List Frame → Reader Unit
  | 0, _ => throw .truncated
  | count + 1, frames => do
    match ← skipStep (count + 1) frames with
    | none => pure ()
    | some frames => skipAll count frames

/-- Skips a value. -/
def skipValue : Reader Unit := do
  skipAll (← bound) []

/-! ## Expected shapes -/

/-- Reads a whole number of 64 bits. -/
def natural (expected : String) : Reader UInt64 := do
  let c ← peek
  if c = '-' ∨ c.isDigit then
    if c = '-' then advance
    match ← numberTail (c ≠ '-') with
    | .natural value => pure value
    | .negative value => throw (.mismatch (.range value expected))
    | .float value => throw (.mismatch (.type (.float value) expected))
  else unexpected expected

/-- Reads a text. -/
def text : Reader String := do
  if (← peek) = '"' then
    advance
    quoted
  else unexpected "a string"

/-- Takes the closing bracket of a list whose items have been read. -/
def listEnd : Reader Unit := do
  if (← peek) = ']' then advance else throw .malformed

/-- Whether another item of a list follows; the comma before it is
taken. -/
def hasItem (first : Bool) : Reader Bool := do
  let c ← peek
  if c = ']' then pure false
  else if first then pure true
  else if c = ',' then
    advance
    if (← peek) = ']' then throw .malformed
    pure true
  else throw .malformed

/-- Reads items up to the end of the list, at most `count`. -/
def items {α : Type} (item : Reader α) : (count : Nat) → (first : Bool) → Reader (List α)
  | 0, _ => throw .truncated
  | count + 1, first => do
    if ← hasItem first then
      let value ← item
      let rest ← items item count false
      pure (value :: rest)
    else pure []

/-- Reads a list. -/
def sequence {α : Type} (item : Reader α) : Reader (List α) := do
  if (← peek) = '[' then
    advance
    let values ← items item (← bound) true
    listEnd
    pure values
  else unexpected "a sequence"

/-- A field of a record that is being put together in a value of type
`σ`. -/
structure Field (σ : Type) where
  name : String
  /-- Whether the field has been read. -/
  isSet : σ → Bool
  /-- Reads the field's value into the record. -/
  read : σ → Reader σ

/-- A field that is read once into a place of the record. -/
def field {σ α : Type} (name : String) (get? : σ → Option α) (put : σ → α → σ)
    (read : Reader α) : Field σ where
  name := name
  isSet state := (get? state).isSome
  read state := do
    let value ← read
    pure (put state value)

/-- Whether another field of an object follows; the comma before it is
taken. -/
def hasField (first : Bool) : Reader Bool := do
  let c ← peek
  if c = '\x7d' then pure false
  else
    if !first then
      if c ≠ ',' then throw .malformed
      advance
    if (← peek) ≠ '"' then throw .malformed
    pure true

/-- Takes the colon after a field's name. -/
def colon : Reader Unit := do
  if (← peek) = ':' then advance else throw .malformed

/-- Reads the fields of an object up to its end, at most `count`. -/
def fields {σ : Type} (known : List (Field σ)) :
    (count : Nat) → (first : Bool) → σ → Reader σ
  | 0, _, _ => throw .truncated
  | count + 1, first, state => do
    if ← hasField first then
      advance
      let name ← quoted
      match known.find? (·.name = name) with
      | some field =>
        if field.isSet state then throw (.mismatch (.duplicateField name))
        colon
        let state ← field.read state
        fields known count false state
      | none =>
        colon
        skipValue
        fields known count false state
    else pure state

/-- Reads the fields of a record from a list, in order; `index` have been
read. -/
def positions {σ : Type} (expected : String) (index : Nat) : List (Field σ) → σ → Reader σ
  | [], state => pure state
  | field :: rest, state => do
    if ← hasItem (index = 0) then
      let state ← field.read state
      positions expected (index + 1) rest state
    else throw (.mismatch (.length index expected))

/-- Reads a record, from an object with its fields in any order or from a
list with its fields in their own. -/
def record {σ α : Type} (name : String) (known : List (Field σ)) (empty : σ)
    (build : σ → Option α) : Reader α := do
  let c ← peek
  let state ←
    if c = '\x7b' then do
      advance
      let state ← fields known (← bound) true empty
      match known.find? fun field => !field.isSet state with
      | some field => throw (.mismatch (.missingField field.name))
      | none =>
        advance
        pure state
    else if c = '[' then do
      advance
      let expected := s!"struct {name} with {known.length} elements"
      let state ← positions expected 0 known empty
      listEnd
      pure state
    else unexpected s!"struct {name}"
  match build state with
  | some value => pure value
  | none => throw .malformed

/-- The variant of a name. -/
def variantOf {α : Type} (variants : List (String × α)) (name : String) : Reader α :=
  match variants.lookup name with
  | some value => pure value
  | none => throw (.mismatch (.unknownVariant name (variants.map (·.1))))

/-- Reads the name of a variant, or an object whose one field has that name
and the value null. -/
def variant {α : Type} (variants : List (String × α)) : Reader α := do
  match ← peek with
  | '"' => do
    advance
    variantOf variants (← quoted)
  | '\x7b' => do
    advance
    if (← peek) ≠ '"' then throw .malformed
    advance
    let value ← variantOf variants (← quoted)
    colon
    if (← peek) = 'n' then
      advance
      word ['u', 'l', 'l']
    else unexpected "unit"
    if (← peek) = '\x7d' then advance else throw .malformed
    pure value
  | _ => throw .malformed

end Reader

/-- The value that a whole text stands for. -/
def read {α : Type} (reader : Reader α) (text : String) : Except Fault α := do
  let chars := text.toList
  let (value, rest) ← reader (chars.length + 1) chars
  if (rest.dropWhile Reader.isBlank).isEmpty then pure value else throw .malformed

end Json

end ErasureDigest
