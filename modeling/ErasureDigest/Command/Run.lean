import ErasureDigest.Command.Line
import ErasureDigest.Command.Report
import ErasureDigest.Command.SettingsFile

/-!
# Running a command line

A run is a function of the arguments, the environment, the files, standard
input, and the cores of the machine. For `hash`, what the switches say stands above the settings
file, and that above the environment; the settings that come out are checked
before the target is opened.
-/

namespace ErasureDigest

namespace Command

/-! ## What a command looks at -/

namespace Invocation

/-- The paths that a command may look at or write to. -/
def paths (invocation : Invocation) (env : Environment) : List String :=
  let target? :=
    match invocation.request with
    | .hash target _ _ => some target
    | .settings _ => none
  target?.toList ++ (invocation.settingsPath?.or env.settingsPath?).toList

/-- Whether a command reads standard input. -/
def readsInput (invocation : Invocation) : Bool :=
  match invocation.request with
  | .hash target _ _ => target = standardInput
  | .settings _ => false

end Invocation

/-! ## What a run leaves behind -/

/-- How a run ended. -/
inductive Ending
  | done
  | failed (failure : Failure)
  /-- The arguments were refused. -/
  | refused
  deriving DecidableEq

/-- What a run leaves behind. -/
structure Outcome where
  ending : Ending
  /-- The lines on standard output. -/
  output : List String
  /-- The lines on standard error that came before the end. -/
  warnings : List String
  /-- The files afterwards. -/
  fs : FileSystem

namespace Outcome

/-- The exit status. -/
def status (outcome : Outcome) : Nat :=
  match outcome.ending with
  | .done => 0
  | .failed _ => 1
  | .refused => 2

/-- How a run ends that was to hash a target. -/
def ofHash (json : Bool) (warnings : List String) (fs : FileSystem) :
    Except Failure Report → Outcome
  | .error failure => ⟨.failed failure, [], warnings, fs⟩
  | .ok report => ⟨.done, report.render json, warnings, fs⟩

/-- How a run ends that did something with the settings file. -/
def ofFileAction : Except SettingsFault (List String) × FileSystem → Outcome
  | (.error fault, fs) => ⟨.failed (.settings fault), [], [], fs⟩
  | (.ok lines, fs) => ⟨.done, lines, [], fs⟩

/-- The lines that tell why the run failed. -/
def report (outcome : Outcome) : List String :=
  match outcome.ending with
  | .failed failure => failure.report
  | .done | .refused => []

end Outcome

/-! ## Carrying out a command -/

/-- The settings that `hash` works with. -/
def hashSettings (fs : FileSystem) (env : Environment) (path? : Option String) (flags : Layer) :
    Except SettingsFault Settings := do
  pure ((← Settings.load fs env path?).override flags)

/-- Hashes a target under the settings of all layers. -/
def runHash (fs : FileSystem) (env : Environment) (input : Source) (path? : Option String)
    (target : String) (flags : Layer) (cores : Nat := 1) : Except Failure Report := do
  let settings ← (hashSettings fs env path? flags).mapError .settings
  let profile ← settings.profile?.mapError .settings
  hashTarget fs input target profile settings.strategy cores

/-- The warning that the file in the home directory cannot be used. -/
def warnings (fs : FileSystem) (env : Environment) : List String :=
  (Settings.homeFault? fs env).toList.map fun fault =>
    "Warning: " ++ String.intercalate ": " fault.chain

/-- Carries out a command. -/
def Invocation.run (invocation : Invocation) (env : Environment) (fs : FileSystem)
    (input : Source) (cores : Nat := 1) : Outcome :=
  let path? := invocation.settingsPath?
  match invocation.request with
  | .hash target flags json =>
    let told := if path?.isNone then warnings fs env else []
    .ofHash json told fs (runHash fs env input path? target flags cores)
  | .settings action => .ofFileAction (runFileAction action fs env path?)

/-! ## The program -/

/-- The line that tells the version. -/
def versionLine : String := "integrity-hash 0.1.0"

/-- The lines that tell how the program is used. -/
def usage : List String :=
  ["Erasure-coded integrity digest calculator",
    "",
    "Usage: integrity-hash [OPTIONS] <COMMAND>",
    "",
    "Commands:",
    "  hash    Compute the integrity hash of a file or stdin",
    "  config  Show or initialize configuration",
    "  help    Print this message",
    "",
    "Options:",
    "      --config <CONFIG>  Path to config file (defaults to ~/.integrity-hash/config.toml)",
    "  -h, --help             Print help",
    "  -V, --version          Print version"]

/-- How a run ends that carries out no command. -/
def Stop.outcome (stop : Stop) (fs : FileSystem) : Outcome :=
  match stop with
  | .refused => ⟨.refused, [], usage, fs⟩
  | .help => ⟨.done, usage, [], fs⟩
  | .version => ⟨.done, [versionLine], [], fs⟩

/-- Runs the program. -/
def run (arguments : List String) (env : Environment) (fs : FileSystem) (input : Source)
    (cores : Nat := 1) : Outcome :=
  match Invocation.ofArguments arguments env with
  | .error stop => stop.outcome fs
  | .ok invocation => invocation.run env fs input cores

end Command

end ErasureDigest
