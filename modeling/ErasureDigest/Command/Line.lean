import ErasureDigest.Command.Grammar
import ErasureDigest.Command.Invocation

/-!
# Reading the command line

Arguments are taken in one after the other (`Draft.step`). A switch may be
given once at each command on the way; the value of `--config` that stands
innermost counts, then the variable `INTEGRITY_CONFIG`. After two dashes
every argument is an operand. Help and version are answered as soon as they
are met, whatever follows.
-/

namespace ErasureDigest

namespace Command

/-- Why no command is carried out. -/
inductive Stop
  /-- The arguments break a rule. -/
  | refused
  /-- Help was asked for. -/
  | help
  /-- The version was asked for. -/
  | version
  deriving DecidableEq, Repr

/-- The switches given at one command, with their values. -/
abbrev Given := List (Switch × String)

/-- The settings that switches name. -/
def Given.flags (given : Given) : Layer where
  segmentSize? := (given.lookup .segmentSize).bind Numeral.parse?
  strategy? := (given.lookup .serial).map fun _ => .serial
  dataShards? := (given.lookup .dataShards).bind Numeral.parse?
  parityShards? := (given.lookup .parityShards).bind Numeral.parse?

/-- What has been read so far. -/
structure Draft where
  /-- The command that the next argument belongs to. -/
  verb : Verb
  /-- The switches given at that command. -/
  given : Given
  /-- The switches given at the commands above it, the nearest first. -/
  outer : List Given
  operands : List String
  /-- The switch whose value comes next. -/
  awaiting? : Option Switch
  /-- Whether every further argument is an operand. -/
  literal : Bool
  /-- Whether the words name a command that help is asked for. -/
  explaining : Bool

namespace Draft

/-- Before the first argument. -/
def start : Draft := ⟨.program, [], [], [], none, false, false⟩

/-! ## Taking in arguments -/

/-- Takes in a switch with its value, or with an empty text if it has
none. -/
def give (draft : Draft) (switch : Switch) (value : String) : Except Stop Draft :=
  if switch = .help then .error .help
  else if switch = .version then .error .version
  else if (draft.given.lookup switch).isSome || !switch.accepts value then .error .refused
  else .ok { draft with given := (switch, value) :: draft.given, awaiting? := none }

/-- Takes in an operand. -/
def operand (draft : Draft) (text : String) : Except Stop Draft :=
  if draft.operands.length < draft.verb.room then
    .ok { draft with operands := draft.operands ++ [text] }
  else .error .refused

/-- Takes in a word: the name of a command below the present one, or an
operand. -/
def word (draft : Draft) (text : String) : Except Stop Draft :=
  match draft.verb.child? text with
  | some .help => .ok { draft with explaining := true }
  | some verb =>
    .ok { draft with verb := verb, given := [], outer := draft.given :: draft.outer }
  | none => draft.operand text

/-- Takes in what stands after two dashes: a name, and a value after an
equals sign if there is one. -/
def long (draft : Draft) (chars : List Char) : Except Stop Draft :=
  let attached := chars.dropWhile (· ≠ '=')
  match draft.verb.longSwitch? (String.ofList (chars.takeWhile (· ≠ '='))) with
  | none => .error .refused
  | some switch =>
    match switch.takesValue, attached with
    | true, [] => .ok { draft with awaiting? := some switch }
    | true, _ :: value => draft.give switch (String.ofList value)
    | false, [] => draft.give switch ""
    | false, _ :: _ => .error .refused

/-- Takes in the letters after one dash. What stands after the letter of a
switch with a value is the value, an equals sign between them set aside. -/
def short (draft : Draft) : (letters : List Char) → Except Stop Draft
  | [] => .ok draft
  | letter :: rest =>
    match draft.verb.shortSwitch? letter with
    | none => .error .refused
    | some switch =>
      match switch.takesValue, rest with
      -- nothing follows the letter, so the next argument is the value
      | true, [] => .ok { draft with awaiting? := some switch }
      | true, '=' :: value => draft.give switch (String.ofList value)
      | true, value => draft.give switch (String.ofList value)
      | false, rest =>
        match draft.give switch "" with
        | .ok draft => draft.short rest
        | .error stop => .error stop

/-- Whether an argument cannot be the value of a switch before it. -/
def looksLikeSwitch (argument : String) : Bool :=
  match argument.toList with
  | '-' :: _ :: _ => true
  | _ => false

/-- Takes in an argument. -/
def step (draft : Draft) (argument : String) : Except Stop Draft :=
  if draft.explaining then
    match draft.verb.child? argument with
    | some verb => .ok { draft with verb := verb }
    | none => .error .refused
  else
    match draft.awaiting? with
    | some switch =>
      if looksLikeSwitch argument then .error .refused else draft.give switch argument
    | none =>
      if draft.literal then draft.operand argument
      else
        match argument.toList with
        | ['-', '-'] => .ok { draft with literal := true }
        | '-' :: '-' :: chars => draft.long chars
        | '-' :: letter :: letters => draft.short (letter :: letters)
        | _ => draft.word argument

/-! ## What was asked for -/

/-- The variable that names the settings file. -/
def settingsVariable : String := "INTEGRITY_CONFIG"

/-- The settings file that was named: on the command line, innermost, else
by the variable. The variable may not be empty where it is looked at, which
is at every command that names no file itself. -/
def settingsPath? (draft : Draft) (env : Environment) : Except Stop (Option String) :=
  let named := (draft.given :: draft.outer).map fun given => given.lookup Switch.config
  let exported? := env.value? settingsVariable
  if exported? = some "" ∧ named.contains none then .error .refused
  else .ok ((named.findSome? id).or exported?)

/-- The command that was asked for. -/
def request (draft : Draft) : Except Stop Request :=
  match draft.verb, draft.operands with
  | .hash, [target] => .ok (.hash target draft.given.flags (draft.given.lookup .json).isSome)
  | .config, _ | .showSettings, _ => .ok (.settings .display)
  | .showPath, _ => .ok (.settings .locate)
  | .init, _ => .ok (.settings (.create (draft.given.lookup .force).isSome))
  | _, _ => .error .refused

/-- What all the arguments ask for. -/
def finish (draft : Draft) (env : Environment) : Except Stop Invocation :=
  if draft.explaining then .error .help
  else if draft.awaiting?.isSome then .error .refused
  else do
    pure ⟨← draft.settingsPath? env, ← draft.request⟩

end Draft

/-- What a command line asks for. -/
def Invocation.ofArguments (arguments : List String) (env : Environment) :
    Except Stop Invocation := do
  (← arguments.foldlM Draft.step .start).finish env

end Command

end ErasureDigest
