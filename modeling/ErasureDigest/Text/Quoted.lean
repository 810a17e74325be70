import ErasureDigest.Text.Unprintable

/-!
# Quoted text in messages

Messages that quote what they were given write it between quotes, with
the quote itself, the backslash and everything unseen escaped.
-/

namespace ErasureDigest

namespace Quoted

/-- A character by its number, in the fewest hexadecimal digits. -/
def byNumber (c : Char) : List Char :=
  ['\\', 'u', '\x7b'] ++ Nat.toDigits 16 c.toNat ++ ['\x7d']

/-- How a character is written between quotes of one kind. -/
def escape (quote c : Char) : List Char :=
  if c = quote ∨ c = '\\' then ['\\', c]
  else if c = '\t' then ['\\', 't']
  else if c = '\n' then ['\\', 'n']
  else if c = '\r' then ['\\', 'r']
  else if c.toNat = 0 then ['\\', '0']
  else if c.toNat < 32 ∨ c.toNat = 127 then byNumber c
  else if c.toNat < 127 then [c]
  else if Unprintable.contains c then byNumber c
  else [c]

/-- A character in single quotes. -/
def ofChar (c : Char) : String :=
  String.ofList ('\'' :: escape '\'' c ++ ['\''])

/-- A text in double quotes. -/
def ofString (text : String) : String :=
  String.ofList ('"' :: text.toList.flatMap (escape '"') ++ ['"'])

end Quoted

end ErasureDigest
