/-!
# JSON documents

What is written as JSON: texts, whole numbers, lists and records, whose
fields keep their order. A document is written on one line (`compact`) or
with one item a line, indented by two spaces a level (`pretty`). The two
differ in blanks alone.
-/

namespace ErasureDigest

/-- A JSON document. -/
inductive Json
  | text (value : String)
  | number (value : UInt64)
  | list (items : List Json)
  | record (fields : List (String × Json))

namespace Json

/-- How a character is written between quotes: the quote, the backslash
and controls are escaped, everything else stands for itself. -/
def escape (c : Char) : List Char :=
  if c = '"' then ['\\', '"']
  else if c = '\\' then ['\\', '\\']
  else if c = '\x08' then ['\\', 'b']
  else if c = '\x0c' then ['\\', 'f']
  else if c = '\n' then ['\\', 'n']
  else if c = '\r' then ['\\', 'r']
  else if c = '\t' then ['\\', 't']
  else if c.toNat < 32 then
    ['\\', 'u', '0', '0', Nat.digitChar (c.toNat / 16), Nat.digitChar (c.toNat % 16)]
  else [c]

/-- A text between quotes. -/
def quote (text : String) : List Char :=
  '"' :: text.toList.flatMap escape ++ ['"']

/-- A number in decimal digits. -/
def digits (n : UInt64) : List Char :=
  Nat.toDigits 10 n.toNat

/-! ## On one line -/

mutual

/-- A document on one line, without blanks. -/
def compact : Json → List Char
  | text value => quote value
  | number value => digits value
  | list items => '[' :: compactItems items ++ [']']
  | record fields => '\x7b' :: compactFields fields ++ ['\x7d']

/-- Items with commas between them. -/
def compactItems : List Json → List Char
  | [] => []
  | [item] => compact item
  | item :: rest => compact item ++ ',' :: compactItems rest

/-- Fields with commas between them. -/
def compactFields : List (String × Json) → List Char
  | [] => []
  | [(name, value)] => quote name ++ ':' :: compact value
  | (name, value) :: rest => quote name ++ ':' :: compact value ++ ',' :: compactFields rest

end

/-! ## One item a line -/

/-- A new line at a depth. -/
def newLine (depth : Nat) : List Char :=
  '\n' :: List.replicate (2 * depth) ' '

mutual

/-- A document that stands at a depth, one item a line. -/
def prettyAt (depth : Nat) : Json → List Char
  | text value => quote value
  | number value => digits value
  | list [] => ['[', ']']
  | list items => '[' :: prettyItems (depth + 1) items ++ newLine depth ++ [']']
  | record [] => ['\x7b', '\x7d']
  | record fields => '\x7b' :: prettyFields (depth + 1) fields ++ newLine depth ++ ['\x7d']

/-- Items at a depth, each on a line of its own. -/
def prettyItems (depth : Nat) : List Json → List Char
  | [] => []
  | [item] => newLine depth ++ prettyAt depth item
  | item :: rest => newLine depth ++ prettyAt depth item ++ ',' :: prettyItems depth rest

/-- Fields at a depth, each on a line of its own. -/
def prettyFields (depth : Nat) : List (String × Json) → List Char
  | [] => []
  | [(name, value)] => newLine depth ++ quote name ++ ':' :: ' ' :: prettyAt depth value
  | (name, value) :: rest =>
    newLine depth ++ quote name ++ ':' :: ' ' :: prettyAt depth value ++
      ',' :: prettyFields depth rest

end

/-- The document on one line. -/
def toCompact (j : Json) : String := String.ofList j.compact

/-- The document with one item a line. -/
def toPretty (j : Json) : String := String.ofList (j.prettyAt 0)

end Json

end ErasureDigest
