/-!
# Tables of a TOML document

A document builds one tree of tables. How a table came about decides what
may still be added to it: a table written inline is complete, one opened by
its header takes no second header and no dotted keys from outside, and one
that only stands above others may still get its header. `Entries.update`
is the one way into the tree, and refuses what the rules forbid.
-/

namespace ErasureDigest

namespace Toml

/-- A value that holds no others. -/
inductive Scalar
  | text (value : String)
  | integer (value : Int)
  | float
  | boolean (value : Bool)
  /-- A date, a time of day, or both. -/
  | moment
  deriving DecidableEq, Repr

/-- How a table came about. -/
inductive Origin
  /-- By its header, or as the whole document. -/
  | header
  /-- As a part of the header of a table inside it. -/
  | implied
  /-- As a part of a dotted key. -/
  | dotted
  /-- Written inline, as a value. -/
  | inline
  deriving DecidableEq, Repr

/-- What a key stands for. -/
inductive Node
  | scalar (value : Scalar)
  | array (items : List Node)
  | table (origin : Origin) (entries : List (String × Node))
  /-- The tables of a repeated header, the latest first. -/
  | tables (items : List (List (String × Node)))

/-- The entries of a table, the latest first. -/
abbrev Entries := List (String × Node)

namespace Entries

/-- The entries with the value of a key replaced. -/
def replace (key : String) (node : Node) : Entries → Entries
  | [] => []
  | entry :: rest => if entry.1 = key then (key, node) :: rest else entry :: replace key node rest

/-- Changes the table that a path leads to, by `change`, which is told how
that table came about. Tables missing on the way are made; a path goes on
from the last of a list of tables. A path written with dots may not enter a
table that has its header. -/
def update (byDots : Bool) (change : Origin → Entries → Option Entries) :
    (path : List String) → Origin → Entries → Option Entries
  | [], origin, entries => change origin entries
  | key :: path, _, entries =>
    match entries.lookup key with
    | none => do
      let origin := if byDots then .dotted else .implied
      let inner ← update byDots change path origin []
      pure ((key, .table origin inner) :: entries)
    | some (.table origin inner) =>
      if origin = .inline ∨ (byDots ∧ origin = .header) then none
      else do
        let inner ← update byDots change path origin inner
        pure (replace key (.table origin inner) entries)
    -- the latest table of the list stands for all of them
    | some (.tables (inner :: others)) => do
      let inner ← update byDots change path .header inner
      pure (replace key (.tables (inner :: others)) entries)
    | some _ => none

/-- Sets the key at the end of a path, below the table these entries are
of. A key is set once, and a path with dots ends only in a table that dots
have made. -/
def set (origin : Origin) (entries : Entries) (path : List String) (key : String)
    (node : Node) : Option Entries :=
  update true
    (fun origin inner =>
      -- a key without dots may not end in a table that dots made, nor one with dots elsewhere
      if (origin == .dotted) == path.isEmpty then none
      else if (inner.lookup key).isSome then none
      else some ((key, node) :: inner))
    path origin entries

/-- Opens the table of a header. -/
def openTable (root : Entries) (path : List String) (key : String) : Option Entries :=
  update false
    (fun _ inner =>
      match inner.lookup key with
      | none => some ((key, .table .header []) :: inner)
      | some (.table .implied entries) => some (replace key (.table .header entries) inner)
      | some _ => none)
    path .header root

/-- Adds a table to those of a repeated header. -/
def addTable (root : Entries) (path : List String) (key : String) : Option Entries :=
  update false
    (fun _ inner =>
      match inner.lookup key with
      | none => some ((key, .tables [[]]) :: inner)
      | some (.tables items) => some (replace key (.tables ([] :: items)) inner)
      | some _ => none)
    path .header root

end Entries

end Toml

end ErasureDigest
