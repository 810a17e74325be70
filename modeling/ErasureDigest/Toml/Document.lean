import ErasureDigest.Toml.Scalar

/-!
# TOML documents

A document is read line by line: comments, headers, and keys with their
values, which are put into the tree of tables at once. A document that
breaks a rule is refused as a whole.
-/

namespace ErasureDigest

namespace Toml

/-! ## Values -/

mutual

/-- A value, with `room` more levels of nesting below it. -/
def value : (count : Nat) → (room : Nat) → Reader Node
  | 0, _ => failure
  | count + 1, room => do
    match ← peek? with
    | none => failure
    | some c =>
      if c = '"' ∨ c = '\'' then pure (.scalar (.text (← quoted count)))
      else if c = '[' then
        if room = 0 then failure
        advance 1
        pure (.array (← items count (room - 1)))
      else if c = '\x7b' then
        if room = 0 then failure
        advance 1
        skipBlanks
        if (← peek?) = some '\x7d' then
          advance 1
          pure (.table .inline [])
        else pure (.table .inline (← members count (room - 1) []))
      else if c = 't' then
        word ['t', 'r', 'u', 'e']
        pure (.scalar (.boolean true))
      else if c = 'f' then
        word ['f', 'a', 'l', 's', 'e']
        pure (.scalar (.boolean false))
      else if c = 'i' ∨ c = 'n' ∨ c = '+' ∨ c = '-' ∨ c.isDigit then
        pure (.scalar (← numeric))
      else failure

/-- The items of an array up to its end; a comma may follow the last. -/
def items : (count : Nat) → (room : Nat) → Reader (List Node)
  | 0, _ => failure
  | count + 1, room => do
    skipLines
    if (← peek?) = some ']' then
      advance 1
      pure []
    else
      let item ← value count room
      skipLines
      match ← take with
      | ']' => pure [item]
      | ',' => do pure (item :: (← items count room))
      | _ => failure

/-- The keys and values of an inline table up to its end, after those read
before. -/
def members : (count : Nat) → (room : Nat) → Entries → Reader Entries
  | 0, _, _ => failure
  | count + 1, room, entries => do
    let (path, name) ← key count
    if (← take) ≠ '=' then failure
    skipBlanks
    let node ← value count room
    skipBlanks
    match entries.set .inline path name node with
    | none => failure
    | some entries =>
      match ← take with
      | '\x7d' => pure entries
      | ',' => members count room entries
      | _ => failure

end

/-! ## Lines -/

/-- The tree so far, and the header that lines belong to. -/
structure Draft where
  root : Entries
  header : List String

/-- Sets a key below the current header. -/
def Draft.set (draft : Draft) (path : List String) (name : String) (node : Node) :
    Option Draft := do
  let root ← draft.root.update false
    (fun origin entries => entries.set origin path name node) draft.header .header
  pure { draft with root := root }

/-- A line with a key and its value, in a text of less than `count`
characters. -/
def keyLine (count : Nat) (draft : Draft) : Reader Draft := do
  let (path, name) ← key count
  if (← take) ≠ '=' then failure
  skipBlanks
  -- each character opens at most a list and an item in it
  let node ← value (2 * count) maxDepth
  lineEnd
  match draft.set path name node with
  | none => failure
  | some draft => pure draft

/-- A line with a header; doubled brackets add a table to a list. -/
def headerLine (count : Nat) (draft : Draft) : Reader Draft := do
  let repeated := ['[', '['].isPrefixOf (← get)
  advance (if repeated then 2 else 1)
  let (path, name) ← key count
  word (if repeated then [']', ']'] else [']'])
  lineEnd
  let root? :=
    if repeated then draft.root.addTable path name else draft.root.openTable path name
  match root? with
  | none => failure
  | some root => pure ⟨root, path ++ [name]⟩

/-- The lines of a document of less than `count` characters. -/
def lines : (count : Nat) → Draft → Reader Draft
  | 0, _ => failure
  | count + 1, draft => do
    skipBlanks
    match ← peek? with
    | none => pure draft
    | some c =>
      if c = '#' ∨ c = '\n' ∨ c = '\r' then
        lineEnd
        lines count draft
      else if c = '[' then
        lines count (← headerLine (count + 1) draft)
      else
        lines count (← keyLine (count + 1) draft)

/-- The tables of a document; a byte order mark in front is skipped. -/
def read (text : String) : Option Entries := do
  let chars := text.toList
  let chars := if chars.head? = some '\ufeff' then chars.drop 1 else chars
  let (draft, _) ← lines (chars.length + 1) ⟨[], []⟩ chars
  pure draft.root

end Toml

end ErasureDigest
