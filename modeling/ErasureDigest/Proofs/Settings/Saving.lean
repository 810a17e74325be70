import ErasureDigest.Proofs.FileSystem.Writing
import ErasureDigest.Proofs.Settings.Layers
import ErasureDigest.Proofs.Settings.Text

/-!
# Settings that are saved

A save makes the directory that is to hold the file, and then writes the text of
all settings, if there is one (`Settings.save_cases`). What stops it before it
writes leaves every file alone (`SettingsFault.PrecedesWriting`). Saved settings
are loaded as they were (`Settings.load_of_save`).
-/

namespace ErasureDigest

/-- Faults that a save meets before it comes to writing the file. -/
def SettingsFault.PrecedesWriting (fault : SettingsFault) : Prop :=
  ∀ reason, fault ≠ .unwritable reason

namespace Settings

variable {settings : Settings} {fs fs' : FileSystem} {path : String} {fault : SettingsFault}

/-- Numbers that are all below the limit can be written, and no others. -/
theorem toText?_eq_none_iff : settings.toText? = none ↔ ¬ settings.Writable := by
  unfold toText?
  split <;> simp_all

theorem precedesWriting_of_makeDirectory
    (h : (makeDirectory fs path).1 = .error fault) : fault.PrecedesWriting := by
  rintro reason rfl
  rw [makeDirectory] at h
  split at h
  · cases h
  · next parent _ =>
    generalize fs.createDirectories parent = made at h
    obtain ⟨_ | _, _⟩ := made <;> cases h

/-- **What a save does**: it makes the directory, and then stops or comes to writing
the text. -/
theorem save_cases (settings : Settings) (path : String) (fs : FileSystem) :
    (∃ fault, fault.PrecedesWriting ∧
        settings.save path fs = (.error fault, (makeDirectory fs path).2)) ∨
      ∃ text, settings.toText? = some text ∧
        ((∃ fault, settings.save path fs =
            (.error (.unwritable fault), (makeDirectory fs path).2)) ∨
          ∃ fs', (makeDirectory fs path).2.write path (Bytes.ofText text) = .ok fs' ∧
            settings.save path fs = (.ok (), fs')) := by
  unfold save
  cases hmake : makeDirectory fs path with
  | mk made fs₁ =>
    cases made with
    | error fault =>
      exact Or.inl ⟨fault, precedesWriting_of_makeDirectory (congrArg Prod.fst hmake), rfl⟩
    | ok _ =>
      cases htext : settings.toText? with
      | none => exact Or.inl ⟨.outOfRange, nofun, rfl⟩
      | some text =>
        refine Or.inr ⟨text, rfl, ?_⟩
        cases hwrite : fs₁.write path (Bytes.ofText text) with
        | error fault => exact Or.inl ⟨fault, by simp only [hwrite]⟩
        | ok fs₂ => exact Or.inr ⟨fs₂, rfl, by simp only [hwrite]⟩

/-- Settings that cannot be written stop a save before it writes. -/
theorem save_of_not_writable (h : ¬ settings.Writable) (path : String) (fs : FileSystem) :
    ∃ fault, fault.PrecedesWriting ∧
      settings.save path fs = (.error fault, (makeDirectory fs path).2) := by
  rcases save_cases settings path fs with hfailed | ⟨text, htext, -⟩
  · exact hfailed
  · rw [toText?_eq_none_iff.2 h] at htext
    cases htext

section

variable (hsound : fs.Sound)
include hsound

theorem extends_makeDirectory (path : String) :
    fs.Extends (makeDirectory fs path).2 ∧ (makeDirectory fs path).2.Sound := by
  unfold makeDirectory
  split
  · exact ⟨.refl fs, hsound⟩
  · next parent _ =>
    have hmade := FileSystem.extends_createDirectories hsound parent
    generalize fs.createDirectories parent = made at hmade
    exact hmade

/-- Where a save fails, every file is as it was, that at the path included; where
nothing was, nothing is, unless the path goes back by two dots. Writing fails here only
where the file cannot be opened. -/
theorem read_of_save_error (h : settings.save path fs = (.error fault, fs')) :
    fs'.Sound ∧ fs.KeepsFiles fs' ∧ (".." ∉ Path.names path →
      ∀ content, fs'.read path = .ok content ↔ fs.read path = .ok content) := by
  obtain ⟨hextends, hsound'⟩ := extends_makeDirectory hsound path
  obtain rfl : (makeDirectory fs path).2 = fs' := by
    rcases save_cases settings path fs with
      ⟨fault, -, hsave⟩ | ⟨text, -, ⟨fault, hsave⟩ | ⟨fs₁, -, hsave⟩⟩
    · exact congrArg Prod.snd (hsave.symm.trans h)
    · exact congrArg Prod.snd (hsave.symm.trans h)
    · cases hsave.symm.trans h
  exact ⟨hsound', hextends.keepsFiles, fun hdots content =>
    ⟨hextends.read_before hsound hdots, hextends.keepsFiles path content⟩⟩

/-- After a save the file holds the text of the settings. No file is lost where
the path named none and does not go back by two dots. -/
theorem read_of_save (h : settings.save path fs = (.ok (), fs')) :
    ∃ text, settings.toText? = some text ∧ fs'.readText path = .ok text ∧ fs'.Sound ∧
      ((∀ content, fs.read path ≠ .ok content) → ".." ∉ Path.names path → fs.KeepsFiles fs') := by
  obtain ⟨hextends, hsound₁⟩ := extends_makeDirectory hsound path
  rcases save_cases settings path fs with
    ⟨fault, -, hsave⟩ | ⟨text, htext, ⟨fault, hsave⟩ | ⟨fs₂, hwrite, hsave⟩⟩
  · cases hsave.symm.trans h
  · cases hsave.symm.trans h
  · obtain rfl : fs₂ = fs' := congrArg Prod.snd (hsave.symm.trans h)
    have hread : fs₂.readText path = .ok text := by
      simp only [FileSystem.readText, FileSystem.read_write hsound₁ hwrite, bind, Except.bind,
        Bytes.utf8?_ofText]
      rfl
    refine ⟨text, htext, hread, FileSystem.sound_write hsound₁ hwrite, fun hfree hdots => ?_⟩
    have hfree₁ : ∀ earlier, (makeDirectory fs path).2.read path ≠ .ok earlier :=
      fun earlier hearlier => hfree earlier (hextends.read_before hsound hdots hearlier)
    exact hextends.keepsFiles.trans (FileSystem.keepsFiles_write hsound₁ hwrite hfree₁)

end

/-! ## Loading what was saved -/

/-- A file with the text of settings comes to these, whatever the variables
say. -/
theorem ofFile_of_readText {text : String} (htext : settings.toText? = some text)
    (hread : fs.readText path = .ok text) (env : Environment) :
    ofFile fs env path = .ok settings := by
  rw [ofFile, hread]
  simp only [ofText?_of_toText? htext env]

/-- A file that can be loaded is what is loaded, named or in the home directory,
and nothing is wrong with it. -/
theorem load_of_ofFile {env : Environment} {path? : Option String}
    (hpath : path?.or env.settingsPath? = some path) (hfile : ofFile fs env path = .ok settings) :
    load fs env path? = .ok settings ∧ (path? = none → homeFault? fs env = none) := by
  have hexists : fs.exists? path = true := by
    rw [ofFile_eq] at hfile
    cases hlayer : Layer.ofFile fs path with
    | error fault => simp [hlayer, Except.map] at hfile
    | ok layer => exact exists_of_ofFile hlayer
  cases path? with
  | some named =>
    obtain rfl : named = path := by simpa using hpath
    exact ⟨hfile, nofun⟩
  | none =>
    have hhome : env.settingsPath? = some path := by simpa using hpath
    simp [load, homeFault?, hhome, hexists, hfile]

/-- **What has been saved is loaded.** -/
theorem load_of_save (hsound : fs.Sound) (h : settings.save path fs = (.ok (), fs'))
    (env : Environment) : load fs' env (some path) = .ok settings := by
  obtain ⟨text, htext, hread, -, -⟩ := read_of_save hsound h
  exact (load_of_ofFile rfl (ofFile_of_readText htext hread env)).1

end Settings

end ErasureDigest
