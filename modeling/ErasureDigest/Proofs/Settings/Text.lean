import ErasureDigest.Proofs.Toml.Lines
import ErasureDigest.Settings.Document

/-!
# Settings read back from their text

The text of settings names every one of them, so reading it gives them back
under any variables (`Settings.ofText?_of_toText?`).
-/

namespace ErasureDigest

namespace Settings

variable {settings : Settings} {text : String}

/-! ## The tables -/

/-- What the lines of a settings file put into the tree. -/
def tables (settings : Settings) : Toml.Entries :=
  [("erasure", .table .header
      [("parity_shards", .scalar (.integer settings.layout.parityShards.toNat)),
        ("data_shards", .scalar (.integer settings.layout.dataShards.toNat))]),
    ("segment", .table .header
      [("strategy", .scalar (.text settings.strategy.name)),
        ("size", .scalar (.integer settings.segmentSize.toNat))])]

theorem word?_ofNat (n : UInt64) :
    (Toml.Node.scalar (.integer n.toNat)).word? = some n := by
  simp [Toml.Node.word?]

/-- **No field is left to the variables.** -/
theorem ofTables?_tables (env : Environment) (settings : Settings) :
    ofTables? env settings.tables = some settings := by
  have hsegment : settings.tables.value? ⟨"segment",
      ((ofEnvironment env).segmentSize, (ofEnvironment env).strategy),
      Toml.Node.pair? (sizeField env) strategyField⟩ =
        some (settings.segmentSize, settings.strategy) := by
    change (do pure (← (Toml.Node.scalar (.integer settings.segmentSize.toNat)).word?,
      ← Strategy.ofName? settings.strategy.name) : Option _) = _
    rw [word?_ofNat, Strategy.ofName?_name]
    rfl
  have herasure : settings.tables.value? ⟨"erasure",
      ((ofEnvironment env).layout.dataShards, (ofEnvironment env).layout.parityShards),
      Toml.Node.pair? (dataField env) (parityField env)⟩ =
        some (settings.layout.dataShards, settings.layout.parityShards) := by
    change (do pure (← (Toml.Node.scalar (.integer settings.layout.dataShards.toNat)).word?,
      ← (Toml.Node.scalar (.integer settings.layout.parityShards.toNat)).word?) : Option _) = _
    rw [word?_ofNat, word?_ofNat]
    rfl
  rw [ofTables?, hsegment, herasure]
  rfl

/-! ## The lines -/

/-- The name of a strategy as a TOML text. -/
def strategyText (strategy : Strategy) : List Char := '"' :: (strategy.name.toList ++ ['"'])

/-- The lines of a settings file. -/
theorem toList_of_toText? (h : settings.toText? = some text) : settings.Writable ∧ text.toList =
    Toml.headerThen "segment"
    (Toml.keyThen "size" (Nat.toDigits 10 settings.segmentSize.toNat)
    (Toml.keyThen "strategy" (strategyText settings.strategy)
    ('\n' ::
    Toml.headerThen "erasure"
    (Toml.keyThen "data_shards" (Nat.toDigits 10 settings.layout.dataShards.toNat)
    (Toml.keyThen "parity_shards" (Nat.toDigits 10 settings.layout.parityShards.toNat)
    []))))) := by
  rw [toText?] at h
  split at h
  · next hwritable =>
    obtain rfl := Option.some.inj h
    refine ⟨hwritable, ?_⟩
    simp [lines, String.join, Numeral.ofWord, Toml.headerThen, Toml.keyThen, strategyText]
  · cases h

/-- **The text of settings is read as their tables.** -/
theorem read_of_toText? (h : settings.toText? = some text) :
    Toml.read text = some settings.tables := by
  obtain ⟨⟨hsize, hdata, hparity⟩, hchars⟩ := toList_of_toText? h
  have hstrategy : Toml.StandsFor (strategyText settings.strategy)
      (.scalar (.text settings.strategy.name)) := by
    have hname : settings.strategy.name.toList ≠ [] ∧
        Toml.IsQuotable settings.strategy.name.toList := by
      cases settings.strategy <;> decide
    have hstands := Toml.standsFor_quote hname.1 hname.2
    rwa [String.ofList_toList] at hstands
  have hcount : ∃ count, text.toList.length + 1 = count + 1 + 3 + 1 + 3 ∧
      (Nat.toDigits 10 settings.segmentSize.toNat).length ≤ count ∧
      (strategyText settings.strategy).length ≤ count ∧
      (Nat.toDigits 10 settings.layout.dataShards.toNat).length ≤ count ∧
      (Nat.toDigits 10 settings.layout.parityShards.toNat).length ≤ count := by
    refine ⟨text.toList.length - 7, ?_⟩
    simp only [hchars, Toml.headerThen, Toml.keyThen, List.length_cons, List.length_append]
    omega
  obtain ⟨count, hcount, hsize', hstrategy', hdata', hparity'⟩ := hcount
  have hlines : Toml.lines (count + 1 + 3 + 1 + 3) ⟨[], []⟩ text.toList =
      some (⟨settings.tables, ["erasure"]⟩, []) := by
    rw [hchars, Toml.lines_pair (by decide) (by decide) (by decide) (by decide) rfl
        (Toml.standsFor_toDigits hsize) hstrategy (by omega) (by omega),
      Toml.lines_blank, Toml.lines_pair (by decide) (by decide) (by decide) (by decide) rfl
        (Toml.standsFor_toDigits hdata) (Toml.standsFor_toDigits hparity) (by omega) (by omega)]
    exact Toml.lines_end count _
  have hmark : text.toList.head? ≠ some '\ufeff' := by
    have hfirst : text.toList.head? = some '[' := congrArg List.head? hchars
    rw [hfirst]
    decide
  rw [Toml.read]
  dsimp only
  rw [if_neg hmark, hcount, hlines]
  rfl

/-- **Settings are read back from their text**, whatever the variables say. -/
theorem ofText?_of_toText? (h : settings.toText? = some text) (env : Environment) :
    ofText? env text = some settings := by
  rw [ofText?, read_of_toText? h, Option.bind_some, ofTables?_tables]

end Settings

end ErasureDigest
