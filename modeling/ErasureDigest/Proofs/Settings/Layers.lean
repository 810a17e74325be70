import ErasureDigest.Settings.Store

/-!
# Settings in layers

Settings come in layers: what switches name, what the settings file names,
what variables name. Each setting is taken from the first layer that names
it, whatever the others do (`Settings.ofLayers`); one that no layer names has
its standard value.

The program does not go by layers. It reads a file section by section, with
values for a section that is missing and others for the fields missing from a
section that is there, has values of its own where there is no file, and puts
what switches name in their place at the end. All of this comes to the same:
`Settings.ofTables?_eq` for the tables of a file, `Settings.load_eq_ok_iff` for
the file that applies, and `Settings.override_ofLayers` for switches.
-/

namespace ErasureDigest

/-! ## Layers -/

namespace Settings

/-- Each setting as the first layer that names it has it. -/
def ofLayers (layers : List Layer) : Settings where
  segmentSize := (layers.findSome? (·.segmentSize?)).getD standard.segmentSize
  strategy := (layers.findSome? (·.strategy?)).getD standard.strategy
  layout :=
    { dataShards := (layers.findSome? (·.dataShards?)).getD standard.layout.dataShards
      parityShards := (layers.findSome? (·.parityShards?)).getD standard.layout.parityShards }

/-- What a further layer in front names takes the place of the others. -/
theorem override_ofLayers (flags : Layer) (layers : List Layer) :
    (ofLayers layers).override flags = ofLayers (flags :: layers) := by
  obtain ⟨size?, strategy?, data?, parity?⟩ := flags
  cases size? <;> cases strategy? <;> cases data? <;> cases parity? <;> rfl

end Settings

namespace Layer

/-- The layer that names nothing. -/
def silent : Layer := ⟨none, none, none, none⟩

/-- What variables name; there is none for the strategy. -/
def ofEnvironment (env : Environment) : Layer :=
  ⟨env.number? segmentSizeVariable, none, env.number? dataShardsVariable,
    env.number? parityShardsVariable⟩

end Layer

/-- Without a file the settings are those of the variables. -/
theorem Settings.ofEnvironment_eq (env : Environment) :
    ofEnvironment env = ofLayers [.ofEnvironment env] := by
  simp only [ofEnvironment, ofLayers, segmentSizeIn, dataShardsIn, parityShardsIn,
    Environment.numberOr, Layer.ofEnvironment, List.findSome?]
  cases env.number? Layer.segmentSizeVariable <;> cases env.number? Layer.dataShardsVariable <;>
    cases env.number? Layer.parityShardsVariable <;> rfl

/-! ## What a file names -/

namespace Toml.Entries

variable {α β : Type}

/-- The fields of a section; one that is missing has none. -/
def fieldsOf? (root : Entries) (name : String) (names : List String) : Option Entries :=
  match root.lookup name with
  | none => some []
  | some node => node.fields? names

/-- What a field names: nothing where it is missing, but it may not be
wrong. -/
def named? (fields : Entries) (name : String) (read : Node → Option α) : Option (Option α) :=
  match fields.lookup name with
  | none => some none
  | some node => (read node).map some

/-- A field has the value that it names, or its own where it is missing. -/
theorem value?_eq (fields : Entries) (field : Field α) :
    fields.value? field = (fields.named? field.name field.read).map (·.getD field.missing) := by
  rw [value?, named?]
  cases fields.lookup field.name with
  | none => rfl
  | some node => simp [Option.map_map, Function.comp_def]

/-- **A missing section is one whose fields are missing**, as long as its
values are theirs. -/
theorem value?_pair?_eq (root : Entries) (name : String) (first : Field α) (second : Field β) :
    root.value? ⟨name, (first.missing, second.missing), Node.pair? first second⟩ =
      (root.fieldsOf? name [first.name, second.name]).bind fun fields =>
        (fields.named? first.name first.read).bind fun a? =>
          (fields.named? second.name second.read).map fun b? =>
            (a?.getD first.missing, b?.getD second.missing) := by
  rw [value?, fieldsOf?]
  cases root.lookup name with
  | none => rfl
  | some node =>
    simp only [Node.pair?, value?_eq]
    cases node.fields? [first.name, second.name] with
    | none => rfl
    | some fields =>
      simp only [bind, Option.bind]
      cases fields.named? first.name first.read with
      | none => rfl
      | some a? =>
        cases fields.named? second.name second.read with
        | none => rfl
        | some b? => rfl

end Toml.Entries

namespace Layer

/-- What the tables of a settings file name. A section may be missing, empty
or with some of its fields only. -/
def ofTables? (root : Toml.Entries) : Option Layer := do
  let segment ← root.fieldsOf? "segment" ["size", "strategy"]
  let segmentSize? ← segment.named? "size" Toml.Node.word?
  let strategy? ← segment.named? "strategy" fun node => node.name?.bind Strategy.ofName?
  let erasure ← root.fieldsOf? "erasure" ["data_shards", "parity_shards"]
  let dataShards? ← erasure.named? "data_shards" Toml.Node.word?
  let parityShards? ← erasure.named? "parity_shards" Toml.Node.word?
  pure ⟨segmentSize?, strategy?, dataShards?, parityShards?⟩

/-- What the file at a path names. It must be read, be TOML, and have
nothing wrong in its sections. -/
def ofFile (fs : FileSystem) (path : String) : Except SettingsFault Layer :=
  match fs.readText path with
  | .error fault => .error (.unreadable path fault)
  | .ok text =>
    match (Toml.read text).bind ofTables? with
    | none => .error (.refused path)
    | some layer => .ok layer

/-- **What the settings file names that applies**: the one that is given,
which must load; without one given, that in the home directory if it loads,
and nothing at all if it does not, or if there is no home. -/
inductive Applies (fs : FileSystem) (env : Environment) : Option String → Layer → Prop
  | given {path : String} {layer : Layer} (h : ofFile fs path = .ok layer) :
    Applies fs env (some path) layer
  | home {path : String} {layer : Layer} (hpath : env.settingsPath? = some path)
    (h : ofFile fs path = .ok layer) : Applies fs env none layer
  | nothing (h : ∀ path layer, env.settingsPath? = some path → ofFile fs path ≠ .ok layer) :
    Applies fs env none silent

end Layer

namespace Settings

variable {fs : FileSystem} {env : Environment} {path : String} {path? : Option String}
variable {settings : Settings} {fault : SettingsFault}

/-! ## What the program makes of it -/

/-- **The tables of a file, read section by section**, come to the settings
without a file with what the tables name in their place. -/
theorem ofTables?_eq (env : Environment) (root : Toml.Entries) :
    ofTables? env root = (Layer.ofTables? root).map (ofEnvironment env).override := by
  have hsegment := root.value?_pair?_eq "segment" (sizeField env) strategyField
  have herasure := root.value?_pair?_eq "erasure" (dataField env) (parityField env)
  simp only [sizeField, strategyField, dataField, parityField] at hsegment herasure
  simp only [ofTables?, ofEnvironment, sizeField, strategyField, dataField, parityField, hsegment,
    herasure, Layer.ofTables?, bind, Option.bind_assoc, Option.map_bind, Option.bind_map,
    Function.comp_def]
  -- both now read the same fields, one after the other
  rfl

/-- And so is a file. -/
theorem ofFile_eq (fs : FileSystem) (env : Environment) (path : String) :
    ofFile fs env path = (Layer.ofFile fs path).map (ofEnvironment env).override := by
  rw [ofFile, Layer.ofFile]
  cases fs.readText path with
  | error fault => rfl
  | ok text =>
    simp only [ofText?]
    cases Toml.read text with
    | none => rfl
    | some root =>
      simp only [Option.bind_some, ofTables?_eq]
      cases Layer.ofTables? root <;> rfl

/-- What is not there cannot be read. -/
theorem exists_readText_eq_error (h : fs.exists? path = false) :
    ∃ fault, fs.readText path = .error fault := by
  cases hlookup : fs.lookup path with
  | ok node => simp [FileSystem.exists?, hlookup, Except.toOption] at h
  | error fault =>
    refine ⟨fault, ?_⟩
    rw [FileSystem.readText, FileSystem.read, hlookup]
    rfl

/-- A file that loads is there. -/
theorem exists_of_ofFile {layer : Layer} (h : Layer.ofFile fs path = .ok layer) :
    fs.exists? path = true := by
  cases hexists : fs.exists? path with
  | true => rfl
  | false =>
    obtain ⟨fault, hread⟩ := exists_readText_eq_error hexists
    simp [Layer.ofFile, hread] at h

/-- The settings are loaded from the file that applies. -/
theorem load_of_applies {file : Layer} (h : Layer.Applies fs env path? file) :
    load fs env path? = .ok (ofLayers [file, .ofEnvironment env]) := by
  rw [← override_ofLayers, ← ofEnvironment_eq]
  cases h with
  | given h => rw [load, ofFile_eq, h, Except.map]
  | home hpath h =>
    simp only [load, hpath, exists_of_ofFile h, if_true, ofFile_eq, h, Except.map]
  | nothing h =>
    rw [load]
    cases hpath : env.settingsPath? with
    | none => rfl
    | some path =>
      cases hfile : Layer.ofFile fs path with
      | ok layer => exact absurd hfile (h path layer hpath)
      | error fault =>
        -- there or not, nothing of the file counts
        simp only [ofFile_eq, hfile, Except.map, ite_self]
        rfl

/-- Some file applies, or nothing, unless one is given that does not load. -/
theorem exists_applies_or_fault (fs : FileSystem) (env : Environment) (path? : Option String) :
    (∃ file, Layer.Applies fs env path? file) ∨
      ∃ path fault, path? = some path ∧ Layer.ofFile fs path = .error fault := by
  cases path? with
  | some path =>
    cases hfile : Layer.ofFile fs path with
    | ok layer => exact Or.inl ⟨layer, .given hfile⟩
    | error fault => exact Or.inr ⟨path, fault, rfl, hfile⟩
  | none =>
    left
    by_cases hhome : ∃ path layer, env.settingsPath? = some path ∧ Layer.ofFile fs path = .ok layer
    · obtain ⟨path, layer, hpath, hfile⟩ := hhome
      exact ⟨layer, .home hpath hfile⟩
    · exact ⟨.silent, .nothing fun path layer hpath hfile => hhome ⟨path, layer, hpath, hfile⟩⟩

/-- Loading fails where the file that is given does not load. -/
theorem load_of_fault (h : Layer.ofFile fs path = .error fault) :
    load fs env (some path) = .error fault := by
  rw [load, ofFile_eq, h, Except.map]

/-- **What is loaded is the file that applies, above the variables.** -/
theorem load_eq_ok_iff : load fs env path? = .ok settings ↔
    ∃ file, Layer.Applies fs env path? file ∧ settings = ofLayers [file, .ofEnvironment env] := by
  constructor
  · intro hload
    rcases exists_applies_or_fault fs env path? with ⟨file, hfile⟩ | ⟨path, fault, rfl, hfault⟩
    · rw [load_of_applies hfile] at hload
      exact ⟨file, hfile, (Except.ok.inj hload).symm⟩
    · simp [load_of_fault hfault] at hload
  · rintro ⟨file, hfile, rfl⟩
    exact load_of_applies hfile

end Settings

end ErasureDigest
