import ErasureDigest.Command.Failure

/-!
# Commands on the settings file

Showing the settings in force, telling where their file is, and writing a
first file. What is written are the settings that hold without any file, so
that the environment of the day is kept in it.
-/

namespace ErasureDigest

namespace Command

/-- The lines that show settings. -/
def settingsLines (settings : Settings) : List String :=
  ["",
    "Integrity Hash Configuration",
    "",
    "[segment]",
    s!"  size = {settings.segmentSize}",
    s!"  strategy = \"{settings.strategy}\"",
    "",
    "[erasure]",
    s!"  data_shards = {settings.layout.dataShards}",
    s!"  parity_shards = {settings.layout.parityShards}",
    ""]

/-- The settings that are shown for a path: those of its file, or those in
force without one if nothing is there. -/
def shownSettings (fs : FileSystem) (env : Environment) (path : String) :
    Except SettingsFault Settings :=
  if fs.exists? path then Settings.load fs env (some path) else .ok (.ofEnvironment env)

/-- The line that tells that there is no file yet. -/
def missingLine : String := "(not created yet) Run 'integrity-hash config init' to create it"

/-- The lines that show the settings for a path. -/
def shownLines (fs : FileSystem) (path : String) (settings : Settings) : List String :=
  settingsLines settings ++
    s!"Config file: {path}" :: if fs.exists? path then [] else [missingLine]

/-- The lines that tell that a file is there already. -/
def keptLines (path : String) : List String :=
  [s!"! Config file already exists at {path}", "Use --force to overwrite"]

/-- The line that tells that a file has been written. -/
def createdLines (path : String) : List String := [s!"✓ Config file created at {path}"]

/-- Does something with the settings file at a path. Gives the lines to
print, and the tree as it is afterwards. -/
def FileAction.run (action : FileAction) (fs : FileSystem) (env : Environment) (path : String) :
    Except SettingsFault (List String) × FileSystem :=
  match action with
  | .display =>
    match shownSettings fs env path with
    | .error fault => (.error fault, fs)
    | .ok settings => (.ok (shownLines fs path settings), fs)
  | .locate => (.ok [path], fs)
  | .create force =>
    if fs.exists? path && !force then
      (.ok (keptLines path), fs)
    else
      match (Settings.ofEnvironment env).save path fs with
      | (.error fault, fs) => (.error fault, fs)
      | (.ok (), fs) => (.ok (createdLines path), fs)

/-- Does something with the settings file: the one that is named, else the
one in the home directory. -/
def runFileAction (action : FileAction) (fs : FileSystem) (env : Environment)
    (path? : Option String) : Except SettingsFault (List String) × FileSystem :=
  match path?.or env.settingsPath? with
  | none => (.error .homeless, fs)
  | some path => action.run fs env path

end Command

end ErasureDigest
