import ErasureDigest.Hex
import ErasureDigest.Text.Numeral
import ErasureDigest.Toml.Tree

/-!
# Words of a TOML document

Blanks, comments, texts, numbers and dates. A reader takes its word from
the front of the text, or refuses the text; why is not told.
-/

namespace ErasureDigest

namespace Toml

/-- Reads from the front of a text, or refuses it. -/
abbrev Reader := StateT (List Char) Option

/-! ## Characters -/

/-- Whether a character is a blank within a line. -/
def isBlank (c : Char) : Bool := c = ' ' || c = '\t'

/-- Whether a character may stand in a comment or a literal text. -/
def isPlain (c : Char) : Bool := c = '\t' || (32 ≤ c.toNat && c.toNat ≠ 127)

/-- The next character, left in place. -/
def peek? : Reader (Option Char) := do
  pure (← get).head?

/-- Leaves characters behind. -/
def advance (count : Nat) : Reader Unit := modify fun text => text.drop count

/-- Takes the next character. -/
def take : Reader Char := do
  match ← get with
  | [] => failure
  | c :: rest =>
    set rest
    pure c

/-- Takes the characters of a word. -/
def word (chars : List Char) : Reader Unit := do
  let text ← get
  if chars.isPrefixOf text then advance chars.length else failure

/-- Skips blanks within a line. -/
def skipBlanks : Reader Unit := modify fun text => text.dropWhile isBlank

/-- What follows the end of a line, if one stands in front. -/
def afterNewline? : List Char → Option (List Char)
  | '\n' :: rest => some rest
  | '\r' :: '\n' :: rest => some rest
  | _ => none

/-- A text without the blanks and line ends at its front. -/
def dropLines : List Char → List Char
  | '\r' :: '\n' :: rest => dropLines rest
  | c :: rest => if c = '\n' || isBlank c then dropLines rest else c :: rest
  | [] => []

/-- Skips blanks and a comment up to the end of the line, and the end
itself. -/
def lineEnd : Reader Unit := do
  skipBlanks
  if (← peek?) = some '#' then modify fun text => text.dropWhile isPlain
  let text ← get
  if text.isEmpty then pure ()
  else
    match afterNewline? text with
    | some rest => set rest
    | none => failure

/-- Skips blanks, comments and line ends, `inComment` telling whether the
text starts inside a comment. A comment ends with its line. -/
def skipLinesFrom (inComment : Bool) : List Char → Option (List Char)
  | '\r' :: '\n' :: rest => skipLinesFrom false rest
  | c :: rest =>
    if c = '\n' then skipLinesFrom false rest
    else if inComment then if isPlain c then skipLinesFrom true rest else none
    else if isBlank c then skipLinesFrom false rest
    else if c = '#' then skipLinesFrom true rest
    else some (c :: rest)
  | [] => if inComment then none else some []

/-- Skips blanks, comments and line ends. -/
def skipLines : Reader Unit := do
  match skipLinesFrom false (← get) with
  | none => failure
  | some rest => set rest

/-! ## Texts -/

/-- The value of `count` hexadecimal digits, `n` standing in front. -/
def hexDigits : (count : Nat) → (n : Nat) → Reader Nat
  | 0, n => pure n
  | count + 1, n => do
    match Hex.value? (← take) with
    | none => failure
    | some d => hexDigits count (16 * n + d)

/-- The character with a number, if there is one. -/
def charOf (n : Nat) : Reader Char :=
  if n < 0xd800 ∨ (0xdfff < n ∧ n < 0x110000) then pure (Char.ofNat n) else failure

/-- The character of an escape whose backslash has been taken. -/
def escaped : Reader Char := do
  match ← take with
  | 'b' => pure '\x08'
  | 't' => pure '\t'
  | 'n' => pure '\n'
  | 'f' => pure '\x0c'
  | 'r' => pure '\r'
  | '"' => pure '"'
  | '\\' => pure '\\'
  | 'u' => do charOf (← hexDigits 4 0)
  | 'U' => do charOf (← hexDigits 8 0)
  | _ => failure

/-- The characters of a text on one line up to its closing quote, at most
`count`, `seen` standing in front in reverse. -/
def basicTail : (count : Nat) → (seen : List Char) → Reader (List Char)
  | 0, _ => failure
  | count + 1, seen => do
    let c ← take
    if c = '"' then pure seen.reverse
    else if c = '\\' then
      let e ← escaped
      basicTail count (e :: seen)
    else if isPlain c then basicTail count (c :: seen)
    else failure

/-- The characters of a literal text up to its closing quote. -/
def literalTail : (count : Nat) → (seen : List Char) → Reader (List Char)
  | 0, _ => failure
  | count + 1, seen => do
    let c ← take
    if c = '\'' then pure seen.reverse
    else if isPlain c then literalTail count (c :: seen)
    else failure

/-- The end of a text of several lines, if its quotes stand here: up to two
more of them belong to the text. Gives those and what follows. -/
def tripleQuote? (quote : Char) (text : List Char) : Option (List Char × List Char) :=
  let quotes := (text.takeWhile (· = quote)).length
  if quotes < 3 then none
  else
    let extra := min 2 (quotes - 3)
    some (List.replicate extra quote, text.drop (3 + extra))

/-- The characters of a text of several lines up to its closing quotes; the
text may have escapes unless it is literal. -/
def linesTail (quote : Char) (literal : Bool) :
    (count : Nat) → (seen : List Char) → Reader (List Char)
  | 0, _ => failure
  | count + 1, seen => do
    let text ← get
    match tripleQuote? quote text with
    | some (extra, rest) =>
      set rest
      pure (seen.reverse ++ extra)
    | none =>
      match afterNewline? text with
      | some rest =>
        set rest
        linesTail quote literal count ('\n' :: seen)
      | none =>
        let c ← take
        if c = '\\' ∧ !literal then
          match afterNewline? ((← get).dropWhile isBlank) with
          | some rest =>
            set (dropLines rest)
            linesTail quote literal count seen
          | none =>
            let e ← escaped
            linesTail quote literal count (e :: seen)
        else if isPlain c then linesTail quote literal count (c :: seen)
        else failure

/-- A text of one line or of several, in either kind of quotes, of at most
`count` characters. -/
def quoted (count : Nat) : Reader String := do
  let text ← get
  let chars ←
    match text with
    | '"' :: '"' :: '"' :: rest => do
      set ((afterNewline? rest).getD rest)
      linesTail '"' false count []
    | '\'' :: '\'' :: '\'' :: rest => do
      set ((afterNewline? rest).getD rest)
      linesTail '\'' true count []
    | '"' :: rest => do
      set rest
      basicTail count []
    | '\'' :: rest => do
      set rest
      literalTail count []
    | _ => failure
  pure (String.ofList chars)

/-! ## Keys -/

/-- Whether a character may stand in a key without quotes. -/
def isBare (c : Char) : Bool := c.isAlphanum || c = '_' || c = '-'

/-- One part of a key, of at most `count` characters if it is quoted. -/
def keyPart (count : Nat) : Reader String := do
  let text ← get
  match text with
  | '"' :: rest => do
    set rest
    pure (String.ofList (← basicTail count []))
  | '\'' :: rest => do
    set rest
    pure (String.ofList (← literalTail count []))
  | text =>
    let bare := text.takeWhile isBare
    if bare.isEmpty then failure
    set (text.dropWhile isBare)
    pure (String.ofList bare)

/-- How deep keys and values may nest. -/
def maxDepth : Nat := 79

/-- The parts of a key, at most `depth`, with blanks around them. -/
def keyParts (count : Nat) : (depth : Nat) → Reader (List String)
  | 0 => failure
  | depth + 1 => do
    skipBlanks
    let part ← keyPart count
    skipBlanks
    if (← peek?) = some '.' then
      advance 1
      pure (part :: (← keyParts count depth))
    else pure [part]

/-- A key: the path to its table, and its name there. Its parts have at most
`count` characters. -/
def key (count : Nat) : Reader (List String × String) := do
  let parts ← keyParts count maxDepth
  match parts.getLast? with
  | none => failure
  | some name => pure (parts.dropLast, name)

/-! ## Numbers -/

/-- Digits after a first one; an underscore may stand between two. -/
def moreDigits (isDigit : Char → Bool) : List Char → Option (List Char × List Char)
  | '_' :: c :: rest =>
    if isDigit c then (moreDigits isDigit rest).map fun r => (c :: r.1, r.2) else none
  | c :: rest =>
    if isDigit c then (moreDigits isDigit rest).map fun r => (c :: r.1, r.2)
    else if c = '_' then none
    else some ([], c :: rest)
  | [] => some ([], [])

/-- At least one digit. -/
def digits (isDigit : Char → Bool) : Reader (List Char) := do
  let first ← take
  if !isDigit first then failure
  match moreDigits isDigit (← get) with
  | none => failure
  | some (more, rest) =>
    set rest
    pure (first :: more)

/-- A number that is too large for any sign. -/
def limit : Nat := Nat.pow 2 63 + 1

/-- The number that digits stand for, or the limit where it is larger. -/
def ofDigits (base : Nat) (chars : List Char) : Nat :=
  Numeral.capped base limit (chars.map fun c => (Hex.value? c).getD 0)

/-- A whole number of 64 bits with a sign. -/
def integer (value : Int) : Reader Scalar :=
  if -(Int.pow 2 63) ≤ value ∧ value < Int.pow 2 63 then pure (.integer value) else failure

/-- The number of digits before the point in the largest double. -/
def maxMagnitude : Nat := 309

/-- Whether a decimal is too large for a double: it rounds to no finite
one. The least such number is whole, so digits after the point do not
matter. -/
def overflows (digits : List Char) (exponent : Int) : Bool :=
  let significant := digits.dropWhile (· = '0')
  let magnitude := exponent + significant.length
  if significant.isEmpty || magnitude < maxMagnitude then false
  else if maxMagnitude < magnitude then true
  else
    let whole := (significant.take maxMagnitude).map Numeral.digitOf
    Nat.pow 2 1024 - Nat.pow 2 970 ≤
      Numeral.ofDigits 10 whole * Nat.pow 10 (maxMagnitude - whole.length)

/-- The size from which on a power of ten takes in no further digits:
`1e700000` stands for ten to the power of 70000. -/
def exponentLimit : Nat := Nat.pow 2 16

/-- The power of ten after the letter e, if one stands here. -/
def exponentPart? : Reader (Option Int) := do
  match ← get with
  | c :: rest =>
    if c = 'e' ∨ c = 'E' then
      let negative := rest.head? = some '-'
      set (if negative ∨ rest.head? = some '+' then rest.drop 1 else rest)
      let n := Numeral.leading 10 exponentLimit ((← digits Char.isDigit).map Numeral.digitOf)
      pure (some (if negative then -(n : Int) else n))
    else pure none
  | [] => pure none

/-- The digits after a point, if one stands here. -/
def fractionPart? : Reader (Option (List Char)) := do
  if (← peek?) = some '.' then
    advance 1
    pure (some (← digits Char.isDigit))
  else pure none

/-- A decimal number whose sign has been taken. -/
def decimal (negative : Bool) : Reader Scalar := do
  let whole ← if (← peek?) = some '0' then do advance 1; pure ['0'] else digits Char.isDigit
  let fraction? ← fractionPart?
  let exponent? ← exponentPart?
  if fraction?.isNone ∧ exponent?.isNone then
    let n := ofDigits 10 whole
    integer (if negative then -(n : Int) else n)
  else
    let fraction := fraction?.getD []
    if !negative && overflows (whole ++ fraction) (exponent?.getD 0 - fraction.length) then failure
    pure .float

/-- A whole number in another base, whose two marks have been taken. -/
def inBase (base : Nat) : Reader Scalar := do
  let isDigit (c : Char) : Bool := (Hex.value? c).any (· < base)
  integer (ofDigits base (← digits isDigit))

/-- A number. -/
def number : Reader Scalar := do
  match ← get with
  | '0' :: 'x' :: rest => do set rest; inBase 16
  | '0' :: 'o' :: rest => do set rest; inBase 8
  | '0' :: 'b' :: rest => do set rest; inBase 2
  | text =>
    let negative := text.head? = some '-'
    if negative ∨ text.head? = some '+' then advance 1
    match ← get with
    | 'i' :: _ => do word ['i', 'n', 'f']; pure .float
    | 'n' :: _ => do word ['n', 'a', 'n']; pure .float
    | _ => decimal negative

/-! ## Dates -/

/-- A number of two digits between two bounds, and what follows. -/
def twoDigits? (low high : Nat) : List Char → Option (Nat × List Char)
  | a :: b :: rest =>
    if a.isDigit ∧ b.isDigit then
      let n := ofDigits 10 [a, b]
      if low ≤ n ∧ n ≤ high then some (n, rest) else none
    else none
  | _ => none

/-- What follows one of these characters. -/
def after? (marks : List Char) : List Char → Option (List Char)
  | c :: rest => if marks.contains c then some rest else none
  | [] => none

/-- The number of days of a month. -/
def daysOf (year month : Nat) : Nat :=
  if month = 2 then
    if year % 4 = 0 ∧ (year % 100 ≠ 0 ∨ year % 400 = 0) then 29 else 28
  else if [4, 6, 9, 11].contains month then 30
  else 31

/-- What follows a date. -/
def afterDate? (text : List Char) : Option (List Char) := do
  let (century, text) ← twoDigits? 0 99 text
  let (year, text) ← twoDigits? 0 99 text
  let text ← after? ['-'] text
  let (month, text) ← twoDigits? 1 12 text
  let text ← after? ['-'] text
  let (_, text) ← twoDigits? 1 (daysOf (100 * century + year) month) text
  pure text

/-- What follows a time of day. -/
def afterTime? (text : List Char) : Option (List Char) := do
  let (_, text) ← twoDigits? 0 23 text
  let text ← after? [':'] text
  let (_, text) ← twoDigits? 0 59 text
  let text ← after? [':'] text
  let (_, text) ← twoDigits? 0 60 text
  match text with
  | '.' :: c :: rest => if c.isDigit then pure (rest.dropWhile Char.isDigit) else none
  | '.' :: [] => none
  | text => pure text

/-- What follows an offset from universal time. -/
def afterOffset? (text : List Char) : Option (List Char) :=
  (after? ['Z', 'z'] text).or do
    let text ← after? ['+', '-'] text
    let (_, text) ← twoDigits? 0 23 text
    let text ← after? [':'] text
    let (_, text) ← twoDigits? 0 59 text
    pure text

/-- What follows a date, a time of day, or both. -/
def afterMoment? (text : List Char) : Option (List Char) :=
  match afterDate? text with
  | none => afterTime? text
  | some rest =>
    match (after? ['T', 't', ' '] rest).bind afterTime? with
    | none => some rest
    | some rest => some ((afterOffset? rest).getD rest)

/-- A date, a time or a number. -/
def numeric : Reader Scalar := do
  match afterMoment? (← get) with
  | some rest => do set rest; pure .moment
  | none => number

end Toml

end ErasureDigest
