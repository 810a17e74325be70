import ErasureDigest.Proofs.Command.Init

/-!
# Showing the settings

`config show` and `hash` come to their settings by ways of their own. `hash` asks
for a file that is named, and takes one in the home directory if it can be used;
`config show` asks first whether anything is at the path (`FileSystem.exists?`),
named or not, and reads it as if it were named. Where `config show` succeeds the two
agree, unless a path is named and that question is answered with no: it shows what
holds without a file, and says that there is none yet, and `hash` fails
(`hash_of_shown`).
-/

namespace ErasureDigest

namespace Settings

variable {env : Environment} {fs : FileSystem} {path? : Option String} {path : String}
variable {settings : Settings}

/-- A file that is named and not there does not load. -/
theorem load_of_missing (h : fs.exists? path = false) (env : Environment) :
    ∃ fault, load fs env (some path) = .error (.unreadable path fault) ∧
      Layer.ofFile fs path = .error (.unreadable path fault) := by
  obtain ⟨fault, hread⟩ := exists_readText_eq_error h
  have hfile : Layer.ofFile fs path = .error (.unreadable path fault) := by
    rw [Layer.ofFile, hread]
  exact ⟨fault, load_of_fault hfile, hfile⟩

end Settings

namespace Command

variable {arguments : List String} {env : Environment} {fs : FileSystem}
variable {path? : Option String} {path target : String} {settings settings' : Settings}
variable {json : Bool} {cores : Nat}

/-! ## What is displayed -/

theorem toString_eq_ofWord (n : UInt64) : toString n = Numeral.ofWord n := by
  change toString n.toNat = _
  rw [Nat.toString_eq_repr, Nat.repr_eq_ofList_toDigits]
  rfl

/-- **The lines that show settings tell all four of them.** -/
theorem settingsLines_injective (h : settingsLines settings = settingsLines settings') :
    settings = settings' := by
  obtain ⟨size, strategy, data, parity⟩ := settings
  obtain ⟨size', strategy', data', parity'⟩ := settings'
  have hword {n m : UInt64} (h : toString n = toString m) : n = m := by
    have hparse := congrArg Numeral.parse? h
    rw [toString_eq_ofWord, toString_eq_ofWord, Numeral.parse?_ofWord,
      Numeral.parse?_ofWord] at hparse
    exact Option.some.inj hparse
  have hname (h : toString strategy = toString strategy') : strategy = strategy' := by
    have hnamed := congrArg Strategy.ofName? (show strategy.name = strategy'.name from h)
    rw [Strategy.ofName?_name, Strategy.ofName?_name] at hnamed
    exact Option.some.inj hnamed
  simp only [settingsLines, List.cons.injEq, true_and, and_true, String.append_left_inj,
    String.append_right_inj] at h
  obtain ⟨hsize, hstrategy, hdata, hparity⟩ := h
  rw [hword hsize, hname hstrategy, hword hdata, hword hparity]

/-- A run that shows settings: it is done, and their lines stand first. -/
def Outcome.Shows (outcome : Outcome) (settings : Settings) : Prop :=
  outcome.ending = .done ∧ settingsLines settings <+: outcome.output

/-- A run shows the settings that its lines are made of, and no others. -/
theorem shows_shownLines_iff :
    (⟨.done, shownLines fs path settings, [], fs⟩ : Outcome).Shows settings' ↔
      settings' = settings := by
  constructor
  · rintro ⟨-, hprefix⟩
    have hlines := List.prefix_of_prefix_length_le hprefix
      (List.prefix_append (settingsLines settings) _) (Nat.le_refl 11)
    exact settingsLines_injective (hlines.eq_of_length rfl)
  · rintro rfl
    exact ⟨rfl, List.prefix_append _ _⟩

/-- **A run of `config show` shows the settings for its path, or fails.** -/
theorem run_display_cases
    (hread : Invocation.ofArguments arguments env = .ok ⟨path?, .settings .display⟩)
    (fs : FileSystem) (input : Source) (cores : Nat) :
    (∃ path settings, path?.or env.settingsPath? = some path ∧
        shownSettings fs env path = .ok settings ∧
        run arguments env fs input cores = ⟨.done, shownLines fs path settings, [], fs⟩) ∨
      ∃ fault, run arguments env fs input cores = ⟨.failed (.settings fault), [], [], fs⟩ := by
  rw [run_of_settings hread, runFileAction]
  cases path?.or env.settingsPath? with
  | none => exact Or.inr ⟨_, rfl⟩
  | some path =>
    simp only [FileAction.run]
    cases hshown : shownSettings fs env path with
    | error fault => exact Or.inr ⟨fault, rfl⟩
    | ok settings => exact Or.inl ⟨path, settings, rfl, hshown, rfl⟩

/-- Settings that it shows are those for its path. -/
theorem run_of_shows {input : Source}
    (hread : Invocation.ofArguments arguments env = .ok ⟨path?, .settings .display⟩)
    (hshows : (run arguments env fs input cores).Shows settings) :
    ∃ path, path?.or env.settingsPath? = some path ∧
      shownSettings fs env path = .ok settings ∧
      run arguments env fs input cores = ⟨.done, shownLines fs path settings, [], fs⟩ := by
  rcases run_display_cases hread fs input cores with
    ⟨path, shown, hpath, hshown, hrun⟩ | ⟨fault, hrun⟩
  · rw [hrun, shows_shownLines_iff] at hshows
    subst hshows
    exact ⟨path, hpath, hshown, hrun⟩
  · rw [hrun] at hshows
    cases hshows.1

/-- A run of `config show` that is done shows settings. -/
theorem exists_shows {input : Source}
    (hread : Invocation.ofArguments arguments env = .ok ⟨path?, .settings .display⟩)
    (hdone : (run arguments env fs input cores).ending = .done) :
    ∃ settings, (run arguments env fs input cores).Shows settings := by
  rcases run_display_cases hread fs input cores with ⟨path, settings, -, -, hrun⟩ | ⟨fault, hrun⟩
  · exact ⟨settings, hrun ▸ shows_shownLines_iff.2 rfl⟩
  · rw [hrun] at hdone
    cases hdone

/-! ## What is loaded -/

/-- **What is shown is loaded**, unless a file is named that is not there. -/
theorem load_of_shown (hpath : path?.or env.settingsPath? = some path)
    (hshown : shownSettings fs env path = .ok settings)
    (hthere : ∀ named, path? = some named → fs.exists? named = true) :
    Settings.load fs env path? = .ok settings ∧
      (path? = none → Settings.homeFault? fs env = none) := by
  rw [shownSettings] at hshown
  split at hshown
  · exact Settings.load_of_ofFile hpath hshown
  · next hmissing =>
    cases path? with
    | some named =>
      obtain rfl : named = path := by simpa using hpath
      exact absurd (hthere named rfl) hmissing
    | none =>
      have hhome : env.settingsPath? = some path := by simpa using hpath
      rw [Bool.not_eq_true] at hmissing
      simp [Settings.load, Settings.homeFault?, hhome, hmissing, ← Except.ok.inj hshown]

/-! ## A file that is not there -/

section

variable (hmissing : fs.exists? path = false)
include hmissing

/-- For a file that is named and not there the settings without a file are shown, and
that there is none yet. -/
theorem shown_of_missing {input : Source}
    (hread : Invocation.ofArguments arguments env = .ok ⟨some path, .settings .display⟩)
    (hshows : (run arguments env fs input cores).Shows settings) :
    settings = .ofEnvironment env ∧ missingLine ∈ (run arguments env fs input cores).output := by
  obtain ⟨path', hpath, hshown, hrun⟩ := run_of_shows hread hshows
  obtain rfl : path = path' := by simpa using hpath
  rw [shownSettings, hmissing, if_neg Bool.false_ne_true] at hshown
  refine ⟨(Except.ok.inj hshown).symm, ?_⟩
  rw [hrun, shownLines, hmissing, if_neg Bool.false_ne_true]
  exact List.mem_append_right _ (List.mem_cons_of_mem _ List.mem_cons_self)

/-- And `hash` fails, since it cannot read the file. -/
theorem run_hash_of_missing
    (hread : Invocation.ofArguments arguments env =
      .ok ⟨some path, .hash target .silent json⟩) (input : Source) (cores : Nat) :
    ∃ fault, Settings.load fs env (some path) = .error (.unreadable path fault) ∧
      run arguments env fs input cores =
        .ofHash json [] fs (.error (.settings (.unreadable path fault))) := by
  obtain ⟨fault, hload, hfile⟩ := Settings.load_of_missing hmissing env
  have hrun := run_of_hash (Invocation.ofArguments_eq_hash_iff.1 hread) fs input cores
  rw [runHash_of_fault hfile] at hrun
  exact ⟨fault, hload, hrun⟩

end

/-! ## Both commands -/

/-- Words that may name a settings file name the same to `config show` and to
`hash`. -/
theorem ofArguments_of_series {words : List String} {above : Given}
    (hwords : Series .program [] above words) (htarget : Draft.looksLikeSwitch target = false)
    (hvariable : env.value? Draft.settingsVariable ≠ some "") :
    let path? := (above.lookup .config).or (env.value? Draft.settingsVariable)
    Invocation.ofArguments (words ++ ["config", "show"]) env =
        .ok ⟨path?, .settings .display⟩ ∧
      Invocation.ofArguments (words ++ ["hash", target]) env =
        .ok ⟨path?, .hash target .silent false⟩ := by
  intro path?
  constructor
  · have hread : (words ++ ["config", "show"]).foldlM Draft.step .start =
        .ok (.ready .showSettings [] [[], above] []) :=
      Draft.foldlM_append_of_ok (Draft.foldlM_series hwords)
    have hpath : (Draft.ready .showSettings [] [[], above] []).settingsPath? env = .ok path? := by
      rw [Draft.settingsPath?, if_neg fun h => hvariable h.1]
      cases hnamed : above.lookup .config <;> simp [Draft.ready, hnamed, path?]
    rw [Invocation.ofArguments, hread]
    simp only [bind, Except.bind, Draft.finish, hpath]
    rfl
  · refine Invocation.ofArguments_eq_hash_iff.2 ⟨above, [],
      .plain hwords .nil htarget .nil (Or.inl rfl), fun h => hvariable h.1, rfl, ?_, rfl⟩
    exact ⟨rfl, rfl, rfl, rfl⟩

/-- **What `config show` shows is what `hash` works with.** Both are told of the same
settings file in the same words. Where `config show` is done it shows settings. A call
of `hash` without switches then loads just these and hashes with them, or refuses them if
they are not in order, unless a path is named at which nothing is found
(`FileSystem.exists?`). In that case the settings that hold without a file are shown, with
a word that there is none yet, and `hash` fails because it cannot read the file. Which
settings are in order is asked of the sum of shards without bound (`Layout.totalShards`). -/
theorem hash_of_shown (env : Environment) (fs : FileSystem) :
    (∀ words above target, Series .program [] above words →
      Draft.looksLikeSwitch target = false → env.value? Draft.settingsVariable ≠ some "" →
      let path? := (above.lookup .config).or (env.value? Draft.settingsVariable)
      Invocation.ofArguments (words ++ ["config", "show"]) env =
          .ok ⟨path?, .settings .display⟩ ∧
        Invocation.ofArguments (words ++ ["hash", target]) env =
          .ok ⟨path?, .hash target .silent false⟩) ∧
    ∀ arguments path? input cores,
      Invocation.ofArguments arguments env = .ok ⟨path?, .settings .display⟩ →
      let shown := run arguments env fs input cores
      (shown.ending = .done → ∃ settings, shown.Shows settings) ∧
      ∀ settings, shown.Shows settings → ∀ arguments' target json input' cores',
        Invocation.ofArguments arguments' env = .ok ⟨path?, .hash target .silent json⟩ →
        let hashed := run arguments' env fs input' cores'
        ((∀ path, path? = some path → fs.exists? path = true) →
          Settings.load fs env path? = .ok settings ∧
          (settings.profile.check = .ok () → hashed = .ofHash json [] fs
            (hashTarget fs input' target settings.profile settings.strategy cores')) ∧
          ∀ error, settings.profile.check = .error error →
            hashed = .ofHash json [] fs (.error (.settings (.invalid error)))) ∧
        ∀ path, path? = some path → fs.exists? path = false →
          settings = .ofEnvironment env ∧ missingLine ∈ shown.output ∧
          ∃ fault, Settings.load fs env path? = .error (.unreadable path fault) ∧
            hashed = .ofHash json [] fs (.error (.settings (.unreadable path fault))) := by
  refine ⟨fun words above target => ofArguments_of_series, fun arguments path? input cores hread => ?_⟩
  refine ⟨exists_shows hread, fun settings hshows arguments' target json input' cores' hhash =>
    ⟨?_, ?_⟩⟩
  · intro hthere
    obtain ⟨path, hpath, hshown, -⟩ := run_of_shows hread hshows
    obtain ⟨hload, hfault⟩ := load_of_shown hpath hshown hthere
    obtain ⟨-, hhashed⟩ := run_hash_of_load hhash hload hfault input' cores'
    exact ⟨hload, hhashed⟩
  · rintro path rfl hmissing
    obtain ⟨hsettings, hline⟩ := shown_of_missing hmissing hread hshows
    exact ⟨hsettings, hline, run_hash_of_missing hmissing hhash input' cores'⟩

/-- A file that a variable names, with one of the settings; and one that switches name
and that is not there. -/
theorem hash_of_shown_partial :
    let fs : FileSystem :=
      ⟨#[[("c.toml", .file (Bytes.ofText "[segment]\nsize = 512\n"))]], [], []⟩
    let env : Environment :=
      ⟨[("INTEGRITY_CONFIG", "c.toml"), ("INTEGRITY_PARITY_SHARDS", "1")], none⟩
    (run ["config"] env fs []).Shows ⟨512, .parallel, ⟨4, 1⟩⟩ ∧
      run ["hash", "-"] env fs [.data [1]] =
        .ofHash false [] fs (hashTarget fs [.data [1]] "-" ⟨512, ⟨4, 1⟩⟩ .parallel) ∧
      missingLine ∈ (run ["--config=absent.toml", "config", "show"] env fs []).output ∧
      ∃ fault, run ["--config=absent.toml", "hash", "-"] env fs [.data [1]] =
        .ofHash false [] fs (.error (.settings (.unreadable "absent.toml" fault))) := by
  intro fs env
  obtain ⟨hsame, hshow⟩ := hash_of_shown env fs
  have hread : Invocation.ofArguments ["config"] env =
      .ok ⟨some "c.toml", .settings .display⟩ := by decide +kernel
  have hhash : Invocation.ofArguments ["hash", "-"] env =
      .ok ⟨some "c.toml", .hash "-" .silent false⟩ := by decide +kernel
  have hshows : (run ["config"] env fs []).Shows ⟨512, .parallel, ⟨4, 1⟩⟩ :=
    ⟨by decide +kernel, by decide +kernel⟩
  obtain ⟨hthere, -⟩ := (hshow _ _ [] 1 hread).2 _ hshows _ _ _ [.data [1]] 1 hhash
  obtain ⟨-, hhashed, -⟩ := hthere (by
    rintro path hpath
    cases hpath
    decide +kernel)
  have hadmits : Given.Admits .program [] .config "absent.toml" :=
    ⟨by decide, by decide, by decide, rfl, by decide⟩
  obtain ⟨hread', hhash'⟩ := hsame ["--config=absent.toml"] [(.config, "absent.toml")] "-"
    (.cons hadmits (.joined (.name rfl)) .nil) (by decide) (by decide)
  have hshows' : (run ["--config=absent.toml", "config", "show"] env fs []).Shows
      ⟨16777216, .parallel, ⟨4, 1⟩⟩ := ⟨by decide +kernel, by decide +kernel⟩
  obtain ⟨-, hmissing⟩ := (hshow _ _ [] 1 hread').2 _ hshows' _ _ _ [.data [1]] 1 hhash'
  obtain ⟨-, hline, fault, -, hfailed⟩ := hmissing "absent.toml" rfl (by decide +kernel)
  exact ⟨hshows, hhashed (by decide +kernel), hline, fault, hfailed⟩

/-- For a file that is named and not there settings are shown, and `hash` does not work
with them, nor with any. -/
theorem shown_of_absent_file :
    let fs : FileSystem := .empty []
    let env : Environment := ⟨[], none⟩
    (run ["--config", "absent.toml", "config", "show"] env fs []).Shows .standard ∧
      Settings.standard.profile.check = .ok () ∧
      Settings.load fs env (some "absent.toml") ≠ .ok .standard ∧
      (run ["--config", "absent.toml", "hash", "-"] env fs [.data [1]]).ending =
        .failed (.settings (.unreadable "absent.toml" (.system .noEntry))) := by
  exact ⟨⟨by decide +kernel, by decide +kernel⟩, by decide +kernel, by decide +kernel,
    by decide +kernel⟩

end Command

end ErasureDigest
