import ErasureDigest.FileSystem
import ErasureDigest.Settings.Document

/-!
# The settings file

A file that is named must be there and be accepted. Without a name the file
in the home directory counts, if it is there and accepted; otherwise nothing
of it counts. Saving makes the directory first and touches the file only
when its whole text is known, so a save that stops before it writes leaves an
earlier file as it was.
-/

namespace ErasureDigest

/-- Why settings could not be loaded, saved or used. -/
inductive SettingsFault
  /-- The file could not be read. -/
  | unreadable (path : String) (fault : IoFault)
  /-- The file is no settings file. -/
  | refused (path : String)
  /-- The directory of the file could not be made. -/
  | noDirectory (path : String) (fault : IoFault)
  /-- A number is too large to be written. -/
  | outOfRange
  /-- The file could not be written. -/
  | unwritable (fault : IoFault)
  /-- The settings cannot be computed with. -/
  | invalid (error : Error)
  /-- There is no home directory to hold the file. -/
  | homeless
  deriving DecidableEq, Repr

/-- The fault in words, what is behind it coming after. -/
def SettingsFault.chain : SettingsFault → List String
  | unreadable path fault => [s!"Failed to read config file {path}", fault.message]
  | refused path => [s!"Failed to parse config file {path}"]
  | noDirectory path fault => [s!"Failed to create config directory {path}", fault.message]
  | outOfRange => ["Failed to serialize config", "out-of-range value for u64 type"]
  | unwritable fault => ["Failed to write config file", fault.message]
  | invalid error => ["Invalid hashing configuration", error.message]
  | homeless => ["Could not determine home directory"]

/-- The settings file that counts when none is named. -/
def Environment.settingsPath? (env : Environment) : Option String :=
  env.home?.map fun home => Path.join (Path.join home ".integrity-hash") "config.toml"

/-! ## Loading -/

namespace Settings

/-- The settings of the file at a path. -/
def ofFile (fs : FileSystem) (env : Environment) (path : String) :
    Except SettingsFault Settings :=
  match fs.readText path with
  | .error fault => .error (.unreadable path fault)
  | .ok text =>
    match ofText? env text with
    | none => .error (.refused path)
    | some settings => .ok settings

/-- The settings of the file that is named, else of the one in the home
directory if it is there and can be used. -/
def load (fs : FileSystem) (env : Environment) : (path? : Option String) →
    Except SettingsFault Settings
  | some path => ofFile fs env path
  | none =>
    match env.settingsPath? with
    | none => .ok (ofEnvironment env)
    | some path =>
      if fs.exists? path then
        match ofFile fs env path with
        | .error _ => .ok (ofEnvironment env)
        | .ok settings => .ok settings
      else .ok (ofEnvironment env)

/-- Why the file in the home directory is not used although it is there. -/
def homeFault? (fs : FileSystem) (env : Environment) : Option SettingsFault :=
  match env.settingsPath? with
  | none => none
  | some path =>
    if fs.exists? path then
      match ofFile fs env path with
      | .error fault => some fault
      | .ok _ => none
    else none

/-- The profile of these settings, if it is accepted. -/
def profile? (settings : Settings) : Except SettingsFault Profile := do
  (settings.profile.check).mapError .invalid
  pure settings.profile

/-! ## Saving -/

/-- Makes the directory that is to hold a file. Gives the tree as it is
afterwards, also when that fails. -/
def makeDirectory (fs : FileSystem) (path : String) : Except SettingsFault Unit × FileSystem :=
  match Path.parent? path with
  | none => (.ok (), fs)
  | some parent =>
    let (made, fs) := fs.createDirectories parent
    (made.mapError (.noDirectory parent), fs)

/-- Saves the settings at a path. Gives the tree as it is afterwards, also
when that fails. -/
def save (settings : Settings) (path : String) (fs : FileSystem) :
    Except SettingsFault Unit × FileSystem :=
  match makeDirectory fs path with
  | (.error fault, fs) => (.error fault, fs)
  | (.ok (), fs) =>
    -- the directory stays even if there is nothing to write
    match settings.toText? with
    | none => (.error .outOfRange, fs)
    | some text =>
      match fs.write path (Bytes.ofText text) with
      | .error fault => (.error (.unwritable fault), fs)
      | .ok fs => (.ok (), fs)

end Settings

end ErasureDigest
