import ErasureDigest.Proofs.Command.Hash
import ErasureDigest.Proofs.Settings.Saving

/-!
# Writing the settings file

`config init` writes down the settings that hold without a file, and later runs
of `hash` work with these under any variables.
-/

namespace ErasureDigest

namespace Command

variable {arguments : List String} {env : Environment} {fs fs' : FileSystem} {input : Source}
variable {path? : Option String} {path : String} {settings : Settings} {force : Bool}
variable {cores : Nat}

/-! ## Runs on the settings file -/

theorem run_of_settings {action : FileAction}
    (hread : Invocation.ofArguments arguments env = .ok ⟨path?, .settings action⟩)
    (fs : FileSystem) (input : Source) (cores : Nat) :
    run arguments env fs input cores = .ofFileAction (runFileAction action fs env path?) := by
  rw [run, hread]
  rfl

/-- **Creating a file leaves what is there, or saves the settings without a
file.** -/
theorem create_cases (force : Bool) (fs : FileSystem) (env : Environment) (path : String) :
    (fs.exists? path = true ∧ force = false ∧
        (FileAction.create force).run fs env path = (.ok (keptLines path), fs)) ∨
      (fs.exists? path = true → force = true) ∧
        ((∃ fault fs', (Settings.ofEnvironment env).save path fs = (.error fault, fs') ∧
            (FileAction.create force).run fs env path = (.error fault, fs')) ∨
          ∃ fs', (Settings.ofEnvironment env).save path fs = (.ok (), fs') ∧
            (FileAction.create force).run fs env path = (.ok (createdLines path), fs')) := by
  rw [FileAction.run]
  by_cases hexists : fs.exists? path = true ∧ force = false
  · obtain ⟨hexists, rfl⟩ := hexists
    exact Or.inl ⟨hexists, rfl, by simp [hexists, keptLines]⟩
  · right
    rw [if_neg (by simpa using hexists)]
    refine ⟨by simpa using hexists, ?_⟩
    cases hsave : (Settings.ofEnvironment env).save path fs with
    | mk saved fs' =>
      cases saved with
      | error fault => exact Or.inl ⟨fault, fs', rfl, rfl⟩
      | ok _ => exact Or.inr ⟨fs', rfl, rfl⟩

/-- And so it is with the run. -/
theorem run_create_cases
    (hread : Invocation.ofArguments arguments env = .ok ⟨path?, .settings (.create force)⟩)
    (hpath : path?.or env.settingsPath? = some path) (fs : FileSystem) (input : Source)
    (cores : Nat) :
    (fs.exists? path = true ∧ force = false ∧
        run arguments env fs input cores = ⟨.done, keptLines path, [], fs⟩) ∨
      (fs.exists? path = true → force = true) ∧
        ((∃ fault fs', (Settings.ofEnvironment env).save path fs = (.error fault, fs') ∧
            run arguments env fs input cores = ⟨.failed (.settings fault), [], [], fs'⟩) ∨
          ∃ fs', (Settings.ofEnvironment env).save path fs = (.ok (), fs') ∧
            run arguments env fs input cores = ⟨.done, createdLines path, [], fs'⟩) := by
  have hrun : run arguments env fs input cores =
      .ofFileAction ((FileAction.create force).run fs env path) := by
    rw [run_of_settings hread, runFileAction, hpath]
  rw [hrun]
  rcases create_cases force fs env path with
    ⟨hexists, hforce, haction⟩ | ⟨hforce, ⟨fault, fs', hsave, haction⟩ | ⟨fs', hsave, haction⟩⟩
  · exact Or.inl ⟨hexists, hforce, congrArg _ haction⟩
  · exact Or.inr ⟨hforce, Or.inl ⟨fault, fs', hsave, congrArg _ haction⟩⟩
  · exact Or.inr ⟨hforce, Or.inr ⟨fs', hsave, congrArg _ haction⟩⟩

/-- Nothing done with the settings file leaves a tree that is not sound. -/
theorem sound_fileAction (hsound : fs.Sound) (action : FileAction) (env : Environment)
    (path : String) : (action.run fs env path).2.Sound := by
  cases action with
  | display =>
    rw [FileAction.run]
    cases shownSettings fs env path <;> exact hsound
  | locate => exact hsound
  | create force =>
    rcases create_cases force fs env path with
      ⟨-, -, haction⟩ | ⟨-, ⟨fault, fs', hsave, haction⟩ | ⟨fs', hsave, haction⟩⟩
    · rw [haction]
      exact hsound
    · rw [haction]
      exact (Settings.read_of_save_error hsound hsave).1
    · rw [haction]
      obtain ⟨text, -, -, hsound', -⟩ := Settings.read_of_save hsound hsave
      exact hsound'

/-- **Every run leaves a sound tree.** -/
theorem sound_run (hsound : fs.Sound) (arguments : List String) (env : Environment)
    (input : Source) (cores : Nat) : (run arguments env fs input cores).fs.Sound := by
  cases hread : Invocation.ofArguments arguments env with
  | error stop =>
    rw [run, hread]
    cases stop <;> exact hsound
  | ok invocation =>
    obtain ⟨path?, request⟩ := invocation
    cases request with
    | hash target flags json =>
      rw [run_of_hash (Invocation.ofArguments_eq_hash_iff.1 hread)]
      cases runHash fs env input path? target flags cores <;> exact hsound
    | settings action =>
      rw [run_of_settings hread, runFileAction]
      cases path?.or env.settingsPath? with
      | none => exact hsound
      | some path =>
        have hsound' := sound_fileAction hsound action env path
        dsimp only
        generalize action.run fs env path = result at hsound'
        obtain ⟨_ | _, fs'⟩ := result <;> exact hsound'

/-! ## What later runs of `hash` do -/

/-- Every call of `hash` without switches that goes by the file at a path works
with these settings: it hashes its target, or ends with what is wrong with
them. -/
def Settles (fs : FileSystem) (path : String) (settings : Settings) : Prop :=
  ∀ arguments env path? target json input cores,
    Invocation.ofArguments arguments env = .ok ⟨path?, .hash target .silent json⟩ →
    path?.or env.settingsPath? = some path →
    hashSettings fs env path? .silent = .ok settings ∧
      (settings.profile.check = .ok () → run arguments env fs input cores =
        .ofHash json [] fs
          (hashTarget fs input target settings.profile settings.strategy cores)) ∧
      ∀ error, settings.profile.check = .error error → run arguments env fs input cores =
        .ofHash json [] fs (.error (.settings (.invalid error)))

/-- **The text of settings settles what `hash` does.** -/
theorem settles_of_readText {text : String} (htext : settings.toText? = some text)
    (hfile : fs.readText path = .ok text) : Settles fs path settings := by
  intro arguments env path? target json input cores hread hpath
  obtain ⟨hload, hfault⟩ :=
    Settings.load_of_ofFile hpath (Settings.ofFile_of_readText htext hfile env)
  exact run_hash_of_load hread hload hfault input cores

/-! ## Both together -/

/-- Where something is at the path, `config init` leaves it alone. -/
theorem run_create_of_exists
    (hread : Invocation.ofArguments arguments env = .ok ⟨path?, .settings (.create false)⟩)
    (hpath : path?.or env.settingsPath? = some path) (hexists : fs.exists? path = true) :
    run arguments env fs input cores = ⟨.done, keptLines path, [], fs⟩ := by
  rcases run_create_cases hread hpath fs input cores with ⟨-, -, hrun⟩ | ⟨hforce, -⟩
  · exact hrun
  · cases hforce hexists

section

variable (hsound : fs.Sound)
include hsound

/-- Without force, `config init` loses no file, unless its path goes back by two
dots. -/
theorem keepsFiles_run_create
    (hread : Invocation.ofArguments arguments env = .ok ⟨path?, .settings (.create false)⟩)
    (hpath : path?.or env.settingsPath? = some path) (hdots : ".." ∉ Path.names path) :
    fs.KeepsFiles (run arguments env fs input cores).fs := by
  rcases run_create_cases hread hpath fs input cores with
    ⟨-, -, hrun⟩ | ⟨hforce, ⟨fault, fs', hsave, hrun⟩ | ⟨fs', hsave, hrun⟩⟩
  · rw [hrun]
    exact .refl fs
  · rw [hrun]
    exact (Settings.read_of_save_error hsound hsave).2.1
  · rw [hrun]
    obtain ⟨text, -, -, -, hkeeps⟩ := Settings.read_of_save hsound hsave
    refine hkeeps (fun content hcontent => ?_) hdots
    cases hforce (FileSystem.exists_of_read hcontent)

/-- What `config init` has written settles what `hash` does. -/
theorem settles_run_create {later : FileSystem}
    (hread : Invocation.ofArguments arguments env = .ok ⟨path?, .settings (.create force)⟩)
    (hpath : path?.or env.settingsPath? = some path)
    (hcreated : (run arguments env fs input cores).output = createdLines path)
    (hlater : later.read path = (run arguments env fs input cores).fs.read path) :
    Settles later path (.ofEnvironment env) := by
  rcases run_create_cases hread hpath fs input cores with
    ⟨-, -, hrun⟩ | ⟨-, ⟨fault, fs', -, hrun⟩ | ⟨fs', hsave, hrun⟩⟩
  · rw [hrun] at hcreated
    cases hcreated
  · rw [hrun] at hcreated
    cases hcreated
  · obtain ⟨text, htext, hfile, -, -⟩ := Settings.read_of_save hsound hsave
    rw [hrun] at hlater
    refine settles_of_readText htext ?_
    rw [FileSystem.readText, hlater]
    exact hfile

end

/-- **Saved settings are pinned, and no file is lost unasked.** Settings that
were saved are loaded as they were under any variables. A save that fails before it
writes, as it does for numbers that cannot be written, leaves every file as it was.
So does `config init` without force where something is at its path, and wherever the
path does not go back by two dots; and what it has written settles what `hash`
works with, whatever changes elsewhere. -/
theorem saved_settings_pinned (fs : FileSystem) (hsound : fs.Sound) :
    (∀ (settings : Settings) (path : String),
      (∀ fs', settings.save path fs = (.ok (), fs') →
        ∀ env, Settings.load fs' env (some path) = .ok settings) ∧
      (∀ fault fs', settings.save path fs = (.error fault, fs') → fault.PrecedesWriting →
        fs.KeepsFiles fs' ∧ (".." ∉ Path.names path →
          ∀ content, fs'.read path = .ok content ↔ fs.read path = .ok content)) ∧
      (¬ settings.Writable → ∃ fault fs', fault.PrecedesWriting ∧
        settings.save path fs = (.error fault, fs'))) ∧
    ∀ arguments env path? path force input cores,
      Invocation.ofArguments arguments env = .ok ⟨path?, .settings (.create force)⟩ →
      path?.or env.settingsPath? = some path →
      let outcome := run arguments env fs input cores
      (force = false →
        (fs.exists? path = true → outcome = ⟨.done, keptLines path, [], fs⟩) ∧
        (".." ∉ Path.names path → fs.KeepsFiles outcome.fs)) ∧
      (outcome.output = createdLines path →
        ∀ later : FileSystem, later.read path = outcome.fs.read path →
          Settles later path (.ofEnvironment env)) := by
  constructor
  · intro settings path
    refine ⟨fun fs' => Settings.load_of_save hsound,
      fun fault fs' hsave _ => (Settings.read_of_save_error hsound hsave).2,
      fun hwritable => ?_⟩
    obtain ⟨fault, hbefore, hsave⟩ := Settings.save_of_not_writable hwritable path fs
    exact ⟨fault, _, hbefore, hsave⟩
  · intro arguments env path? path force input cores hread hpath outcome
    refine ⟨?_, fun hcreated later => settles_run_create hsound hread hpath hcreated⟩
    rintro rfl
    exact ⟨run_create_of_exists hread hpath, keepsFiles_run_create hsound hread hpath⟩

/-- A size that a variable named when the file was written, and names no longer;
a size that cannot be written; and a file that is there already. -/
theorem pinned_of_changed_variable :
    let env : Environment := ⟨[("INTEGRITY_SEGMENT_SIZE", "512")], none⟩
    let fs : FileSystem := ⟨#[[("old.toml", .file [])]], [], [("old.toml", .file [])]⟩
    let created := run ["--config=new/c.toml", "config", "init"] env fs []
    created.output = createdLines "new/c.toml" ∧ created.fs.read "old.toml" = .ok [] ∧
      run ["hash", "-", "--config=new/c.toml"] ⟨[("INTEGRITY_SEGMENT_SIZE", "9")], none⟩
          created.fs [.data [1]] =
        .ofHash false [] created.fs
          (hashTarget created.fs [.data [1]] "-" ⟨512, ⟨4, 2⟩⟩ .parallel) ∧
      run ["--config=old.toml", "config", "init"] env fs [] =
        ⟨.done, keptLines "old.toml", [], fs⟩ ∧
      (∀ env, Settings.load (Settings.save ⟨7, .serial, ⟨1, 0⟩⟩ "new/c.toml" fs).2 env
        (some "new/c.toml") = .ok ⟨7, .serial, ⟨1, 0⟩⟩) ∧
      ∃ fault fs', Settings.save ⟨0x8000000000000000, .serial, ⟨1, 0⟩⟩ "old.toml" fs =
        (.error fault, fs') ∧ fs'.read "old.toml" = .ok [] := by
  intro env fs created
  have hsound : fs.Sound :=
    FileSystem.sound_write (FileSystem.sound_empty List.not_mem_nil)
      (show (FileSystem.empty []).write "old.toml" [] = .ok fs from rfl)
  have hold : fs.read "old.toml" = .ok [] := by decide +kernel
  obtain ⟨hsave, hinit⟩ := saved_settings_pinned fs hsound
  have hread : Invocation.ofArguments ["--config=new/c.toml", "config", "init"] env =
      .ok ⟨some "new/c.toml", .settings (.create false)⟩ := by decide +kernel
  have hread' : Invocation.ofArguments ["--config=old.toml", "config", "init"] env =
      .ok ⟨some "old.toml", .settings (.create false)⟩ := by decide +kernel
  have hhash : Invocation.ofArguments ["hash", "-", "--config=new/c.toml"]
      ⟨[("INTEGRITY_SEGMENT_SIZE", "9")], none⟩ =
        .ok ⟨some "new/c.toml", .hash "-" .silent false⟩ := by decide +kernel
  have hcreated : created.output = createdLines "new/c.toml" := by decide +kernel
  obtain ⟨hunforced, hsettles⟩ := hinit _ _ _ _ _ [] 1 hread rfl
  obtain ⟨-, hhashed, -⟩ :=
    hsettles hcreated created.fs rfl _ _ _ _ _ [.data [1]] 1 hhash rfl
  obtain ⟨hpresent, -⟩ := (hinit _ _ _ _ _ [] 1 hread' rfl).1 rfl
  obtain ⟨hloads, -⟩ := hsave ⟨7, .serial, ⟨1, 0⟩⟩ "new/c.toml"
  obtain ⟨-, hkeeps, hfails⟩ := hsave ⟨0x8000000000000000, .serial, ⟨1, 0⟩⟩ "old.toml"
  obtain ⟨fault, fs', hbefore, hfailed⟩ := hfails (by decide +kernel)
  exact ⟨hcreated, (hunforced rfl).2 (by decide +kernel) "old.toml" [] hold,
    hhashed (by decide +kernel), hpresent (by decide +kernel), hloads _ (Prod.ext rfl rfl),
    fault, fs', hfailed, (hkeeps fault fs' hfailed hbefore).1 "old.toml" [] hold⟩

/-- A directory that is missing is made before the path is followed, so that the
path may then lead back to a file that was not asked about. -/
theorem create_of_missing_directory :
    let earlier := Bytes.ofText "[segment]\nsize = 77\n"
    let fs : FileSystem := ⟨#[[("c.toml", .file earlier)]], [], []⟩
    let outcome := run ["--config=new/../c.toml", "config", "init"] ⟨[], none⟩ fs []
    fs.read "c.toml" = .ok earlier ∧ outcome.output = createdLines "new/../c.toml" ∧
      outcome.fs.read "c.toml" ≠ .ok earlier := by
  decide +kernel

end Command

end ErasureDigest
