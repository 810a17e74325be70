import ErasureDigest.Settings.Layer
import ErasureDigest.Toml.Document

/-!
# Settings as a TOML document

A settings file has two sections, `segment` and `erasure`, with two fields
each. Every section and field may be missing, and others are left alone. A
file whose fields have wrong values is refused as a whole, as is one that is
no TOML. A section that is missing, and a field that is missing from a
section, have the values that hold without a file. Written, a settings file
names every setting; TOML has signed numbers of 64 bits, so larger ones cannot
be written.
-/

namespace ErasureDigest

/-! ## Fields -/

namespace Toml

/-- A whole number that is not negative. -/
def Node.word? : Node → Option UInt64
  | .scalar (.integer n) => if 0 ≤ n then some (UInt64.ofNat n.toNat) else none
  | _ => none

/-- Whether a value holds nothing. -/
def Node.isVacant : Node → Bool
  | .table _ entries => entries.isEmpty
  | .array items => items.isEmpty
  | .tables items => items.isEmpty
  | .scalar _ => false

/-- A name: a text, or the one key of a table, with nothing for its
value. -/
def Node.name? : Node → Option String
  | .scalar (.text name) => some name
  | .table _ [(name, value)] => if value.isVacant then some name else none
  | _ => none

/-- The fields of a section: those of a table by their names, the items of
an array by their places. A date has no field that is known. -/
def Node.fields? (names : List String) : Node → Option Entries
  | .table _ entries => some entries
  | .array items => some (names.zip items)
  | .scalar .moment => some []
  | _ => none

/-- An entry that may be missing: its name, its value then, and how it is
read where it is there. -/
structure Field (α : Type) where
  name : String
  missing : α
  read : Node → Option α

/-- The value of an entry, which may be missing but not wrong. -/
def Entries.value? {α : Type} (entries : Entries) (field : Field α) : Option α :=
  match entries.lookup field.name with
  | none => some field.missing
  | some node => field.read node

/-- The values of the two fields of a section. -/
def Node.pair? {α β : Type} (first : Field α) (second : Field β) (node : Node) :
    Option (α × β) := do
  let fields ← node.fields? [first.name, second.name]
  pure (← fields.value? first, ← fields.value? second)

end Toml

/-- The strategy with a name. -/
def Strategy.ofName? (name : String) : Option Strategy :=
  [Strategy.serial, .parallel].find? fun strategy => strategy.name = name

theorem Strategy.ofName?_name (strategy : Strategy) : ofName? strategy.name = some strategy := by
  cases strategy <;> decide

/-! ## Reading -/

namespace Settings

/-- The field for the segment size. -/
def sizeField (env : Environment) : Toml.Field UInt64 :=
  ⟨"size", segmentSizeIn env, Toml.Node.word?⟩

/-- The field for the strategy. -/
def strategyField : Toml.Field Strategy :=
  ⟨"strategy", standard.strategy, fun node => node.name?.bind Strategy.ofName?⟩

/-- The field for the number of data shards. -/
def dataField (env : Environment) : Toml.Field UInt64 :=
  ⟨"data_shards", dataShardsIn env, Toml.Node.word?⟩

/-- The field for the number of parity shards. -/
def parityField (env : Environment) : Toml.Field UInt64 :=
  ⟨"parity_shards", parityShardsIn env, Toml.Node.word?⟩

/-- What the tables of a settings file come to. A section that is missing is
what it is without a file. -/
def ofTables? (env : Environment) (root : Toml.Entries) : Option Settings := do
  let absent := ofEnvironment env
  let (segmentSize, strategy) ← root.value?
    ⟨"segment", (absent.segmentSize, absent.strategy),
      Toml.Node.pair? (sizeField env) strategyField⟩
  let (dataShards, parityShards) ← root.value?
    ⟨"erasure", (absent.layout.dataShards, absent.layout.parityShards),
      Toml.Node.pair? (dataField env) (parityField env)⟩
  pure ⟨segmentSize, strategy, ⟨dataShards, parityShards⟩⟩

/-- What the text of a settings file comes to. -/
def ofText? (env : Environment) (text : String) : Option Settings :=
  (Toml.read text).bind (ofTables? env)

end Settings

/-! ## Writing -/

namespace Settings

/-- The lines of a settings file. -/
def lines (settings : Settings) : List String :=
  ["[segment]",
    "size = " ++ Numeral.ofWord settings.segmentSize,
    "strategy = \"" ++ settings.strategy.name ++ "\"",
    "",
    "[erasure]",
    "data_shards = " ++ Numeral.ofWord settings.layout.dataShards,
    "parity_shards = " ++ Numeral.ofWord settings.layout.parityShards]

/-- Whether every number can be written. -/
def Writable (settings : Settings) : Prop :=
  settings.segmentSize.toNat < Nat.pow 2 63 ∧ settings.layout.dataShards.toNat < Nat.pow 2 63 ∧
    settings.layout.parityShards.toNat < Nat.pow 2 63

instance (settings : Settings) : Decidable settings.Writable :=
  inferInstanceAs (Decidable (_ ∧ _))

/-- The text of a settings file, if every number can be written. -/
def toText? (settings : Settings) : Option String :=
  if settings.Writable then some (String.join (settings.lines.map (· ++ "\n"))) else none

end Settings

end ErasureDigest
