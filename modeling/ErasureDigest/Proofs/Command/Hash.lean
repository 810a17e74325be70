import ErasureDigest.Command.Run
import ErasureDigest.Proofs.Command.Line
import ErasureDigest.Proofs.Hashing.Content
import ErasureDigest.Proofs.Settings.Layers

/-!
# The settings of `hash`

`hash` works with what its switches name, above what the settings file names,
above what variables name, above the standard values
(`run_hash_layered`). A file that is given must load. The layers are put
together before anything is checked, so only what comes out of them has to be
in order, and the target is left alone where it is not.
-/

namespace ErasureDigest

namespace Command

variable {arguments : List String} {env : Environment} {fs : FileSystem} {input : Source}
variable {path? : Option String} {target : String} {flags file : Layer} {json : Bool}
variable {settings : Settings} {cores : Nat}

/-! ## What a run comes to -/

/-- A call of `hash` is run as one. -/
theorem run_of_hash (hcall : HashCall arguments env path? target flags json) (fs : FileSystem)
    (input : Source) (cores : Nat) :
    run arguments env fs input cores =
      .ofHash json (if path?.isNone then warnings fs env else []) fs
        (runHash fs env input path? target flags cores) := by
  rw [run, Invocation.ofArguments_eq_hash_iff.2 hcall]
  rfl

/-- Where a target is hashed, no failure is about settings. -/
theorem ending_ofHash_hashTarget {told : List String} {profile : Profile} {strategy : Strategy}
    (fault : SettingsFault) :
    (Outcome.ofHash json told fs (hashTarget fs input target profile strategy cores)).ending ≠
      .failed (.settings fault) := by
  rw [hashTarget]
  split
  · nofun
  · nofun

/-! ## What `hash` works with -/

/-- The settings of all layers, the switches in front. -/
theorem hashSettings_of_applies (hfile : Layer.Applies fs env path? file) (flags : Layer) :
    hashSettings fs env path? flags = .ok (.ofLayers [flags, file, .ofEnvironment env]) := by
  rw [← Settings.override_ofLayers, hashSettings, Settings.load_of_applies hfile]
  rfl

/-- Settings that are in order are hashed with. -/
theorem runHash_of_check (hsettings : hashSettings fs env path? flags = .ok settings)
    (hcheck : settings.profile.check = .ok ()) :
    runHash fs env input path? target flags cores =
      hashTarget fs input target settings.profile settings.strategy cores := by
  rw [runHash, hsettings]
  simp only [Except.mapError, bind, Except.bind, Settings.profile?, hcheck]
  rfl

/-- Others are refused. -/
theorem runHash_of_check_error (hsettings : hashSettings fs env path? flags = .ok settings)
    {error : Error} (hcheck : settings.profile.check = .error error) :
    runHash fs env input path? target flags cores = .error (.settings (.invalid error)) := by
  rw [runHash, hsettings]
  simp only [Except.mapError, bind, Except.bind, Settings.profile?, hcheck]

/-- A file that is given and does not load is the end. -/
theorem runHash_of_fault {path : String} {fault : SettingsFault}
    (hfault : Layer.ofFile fs path = .error fault) :
    runHash fs env input (some path) target flags cores = .error (.settings fault) := by
  rw [runHash, hashSettings, Settings.load_of_fault hfault]
  rfl

/-- **A call without switches works with the settings that are loaded**, where
nothing is wrong with a file that it does not name. -/
theorem run_hash_of_load
    (hread : Invocation.ofArguments arguments env = .ok ⟨path?, .hash target .silent json⟩)
    (hload : Settings.load fs env path? = .ok settings)
    (hfault : path? = none → Settings.homeFault? fs env = none) (input : Source) (cores : Nat) :
    hashSettings fs env path? .silent = .ok settings ∧
      (settings.profile.check = .ok () → run arguments env fs input cores =
        .ofHash json [] fs
          (hashTarget fs input target settings.profile settings.strategy cores)) ∧
      ∀ error, settings.profile.check = .error error → run arguments env fs input cores =
        .ofHash json [] fs (.error (.settings (.invalid error))) := by
  have hsettings : hashSettings fs env path? .silent = .ok settings := by
    rw [hashSettings, hload]
    rfl
  have htold : (if path?.isNone then warnings fs env else []) = [] := by
    cases path? with
    | none => simp [warnings, hfault]
    | some named => rfl
  have hrun := run_of_hash (Invocation.ofArguments_eq_hash_iff.1 hread) fs input cores
  rw [htold] at hrun
  refine ⟨hsettings, fun hcheck => ?_, fun error hcheck => ?_⟩
  · rw [hrun, runHash_of_check hsettings hcheck]
  · rw [hrun, runHash_of_check_error hsettings hcheck]

/-- **The settings of `hash` are layered.** A settings file that a call names
must load; else that in the home directory counts if it loads. Each setting is
as the first of switches, file and variables has it that names it, else the
standard one. If what comes out can be computed with, the target is hashed; if
not, the run ends with what is wrong, whatever the target is. Data and parity
shards are added up without bound, as in `Layout.totalShards`; where the sum is
2 ^ 64 or more this is not the sum of words. -/
theorem run_hash_layered (arguments : List String) (env : Environment) (path? : Option String)
    (target : String) (flags : Layer) (json : Bool) (fs : FileSystem) (input : Source)
    (cores : Nat) :
    let told := if path?.isNone then warnings fs env else []
    (Invocation.ofArguments arguments env = .ok ⟨path?, .hash target flags json⟩ ↔
      HashCall arguments env path? target flags json) ∧
    (HashCall arguments env path? target flags json →
      ((∃ file, Layer.Applies fs env path? file) ∨
        ∃ path fault, path? = some path ∧ Layer.ofFile fs path = .error fault ∧
          run arguments env fs input cores = .ofHash json told fs (.error (.settings fault))) ∧
      ∀ file, Layer.Applies fs env path? file →
        let merged := Settings.ofLayers [flags, file, .ofEnvironment env]
        let size := merged.segmentSize.toNat
        let data := merged.layout.dataShards.toNat
        let parity := merged.layout.parityShards.toNat
        (0 < size ∧ 0 < data ∧ data + parity ≤ 256 →
          run arguments env fs input cores =
            .ofHash json told fs
              (hashTarget fs input target merged.profile merged.strategy cores) ∧
          ∀ fault, (run arguments env fs input cores).ending ≠ .failed (.settings fault)) ∧
        (¬ (0 < size ∧ 0 < data ∧ data + parity ≤ 256) →
          ∃ error, merged.profile.check = .error error ∧
            run arguments env fs input cores =
              .ofHash json told fs (.error (.settings (.invalid error))))) := by
  intro told
  refine ⟨Invocation.ofArguments_eq_hash_iff, fun hcall => ?_⟩
  have hrun := run_of_hash hcall fs input cores
  constructor
  · rcases Settings.exists_applies_or_fault fs env path? with happlies | ⟨path, fault, rfl, hfault⟩
    · exact Or.inl happlies
    · rw [runHash_of_fault hfault] at hrun
      exact Or.inr ⟨path, fault, rfl, hfault, hrun⟩
  · intro file hfile merged size data parity
    have hvalid : merged.profile.check = .ok () ↔ 0 < size ∧ 0 < data ∧ data + parity ≤ 256 :=
      Profile.check_eq_ok_iff
    constructor
    · intro h
      rw [runHash_of_check (hashSettings_of_applies hfile flags) (hvalid.2 h)] at hrun
      rw [hrun]
      exact ⟨rfl, ending_ofHash_hashTarget⟩
    · intro h
      cases hcheck : merged.profile.check with
      | ok _ => exact absurd (hvalid.1 hcheck) h
      | error error =>
        rw [runHash_of_check_error (hashSettings_of_applies hfile flags) hcheck] at hrun
        exact ⟨error, rfl, hrun⟩

/-- What is wrong in a file and in a variable is no fault where switches name
something else, and is one where they do not. -/
theorem run_of_hidden_faults :
    let fs : FileSystem :=
      ⟨#[[("a.toml", .file (Bytes.ofText "[segment]\nsize = 0\n[erasure]\nparity_shards = 1\n"))]],
        [], []⟩
    let env : Environment :=
      ⟨[("INTEGRITY_DATA_SHARDS", "0"), ("INTEGRITY_PARITY_SHARDS", "9")], none⟩
    run ["--config=a.toml", "hash", "-s1024", "--data-shards", "3", "-"] env fs [.data [1]] 8 =
        .ofHash false [] fs (hashTarget fs [.data [1]] "-" ⟨1024, ⟨3, 1⟩⟩ .parallel 8) ∧
      run ["hash", "-", "--serial", "--config", "a.toml"] env fs [.data [1]] =
        .ofHash false [] fs
          (.error (.settings (.invalid (.configuration .zeroSegmentSize)))) := by
  intro fs env
  have hfile : Layer.Applies fs env (some "a.toml") ⟨some 0, none, none, some 1⟩ :=
    .given (by decide +kernel)
  constructor
  · have hread : Invocation.ofArguments
        ["--config=a.toml", "hash", "-s1024", "--data-shards", "3", "-"] env =
          .ok ⟨some "a.toml", .hash "-" ⟨some 1024, none, some 3, none⟩ false⟩ := by
      decide +kernel
    obtain ⟨hcall, hrun⟩ := run_hash_layered _ _ _ _ _ _ fs [.data [1]] 8
    exact (((hrun (hcall.1 hread)).2 _ hfile).1 (by decide +kernel)).1
  · have hread : Invocation.ofArguments ["hash", "-", "--serial", "--config", "a.toml"] env =
        .ok ⟨some "a.toml", .hash "-" ⟨none, some .serial, none, none⟩ false⟩ := by
      decide +kernel
    obtain ⟨hcall, hrun⟩ := run_hash_layered _ _ _ _ _ _ fs [.data [1]] 1
    obtain ⟨error, herror, hrun⟩ := ((hrun (hcall.1 hread)).2 _ hfile).2 (by decide +kernel)
    cases herror
    exact hrun

end Command

end ErasureDigest
