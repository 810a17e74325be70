import ErasureDigest.Text.Numeral

/-!
# Words of the command line

Commands stand in a tree: below the program are `hash`, `config` and `help`,
below `config` what it can do. Every command has its switches; `--config`
and `--help` may be given at each of them.
-/

namespace ErasureDigest

namespace Command

/-! ## Switches -/

/-- An option of some command. -/
inductive Switch
  | config
  | segmentSize
  | dataShards
  | parityShards
  | serial
  | json
  | force
  | help
  | version
  deriving DecidableEq, Repr

namespace Switch

/-- The name after two dashes. -/
def long : Switch → String
  | config => "config"
  | segmentSize => "segment-size"
  | dataShards => "data-shards"
  | parityShards => "parity-shards"
  | serial => "serial"
  | json => "json"
  | force => "force"
  | help => "help"
  | version => "version"

/-- The letter after one dash. -/
def short? : Switch → Option Char
  | segmentSize => some 's'
  | dataShards => some 'd'
  | parityShards => some 'p'
  | force => some 'f'
  | help => some 'h'
  | version => some 'V'
  | config | serial | json => none

/-- Whether a value follows. -/
def takesValue : Switch → Bool
  | config | segmentSize | dataShards | parityShards => true
  | serial | json | force | help | version => false

/-- Whether a value can be used: a path that is not empty, a number. -/
def accepts : Switch → String → Bool
  | config, value => value ≠ ""
  | segmentSize, value | dataShards, value | parityShards, value =>
    (Numeral.parse? value).isSome
  | serial, _ | json, _ | force, _ | help, _ | version, _ => true

end Switch

/-! ## Commands -/

/-- A place in the tree of commands. -/
inductive Verb
  /-- The program, before any command is named. -/
  | program
  | hash
  | config
  | showSettings
  | showPath
  | init
  | help
  deriving DecidableEq, Repr

namespace Verb

/-- The command that a word names below another. -/
def child? : Verb → String → Option Verb
  | program, word =>
    if word = "hash" then some hash
    else if word = "config" then some config
    else if word = "help" then some help
    else none
  | config, word =>
    if word = "show" then some showSettings
    else if word = "path" then some showPath
    else if word = "init" then some init
    else if word = "help" then some help
    else none
  | _, _ => none

/-- The switches of a command. -/
def switches : Verb → List Switch
  | program => [.config, .help, .version]
  | hash => [.config, .segmentSize, .dataShards, .parityShards, .serial, .json, .help]
  | config | showSettings | showPath => [.config, .help]
  | init => [.config, .force, .help]
  | help => []

/-- How many operands a command takes. -/
def room : Verb → Nat
  | hash => 1
  | _ => 0

/-- The switch of a command that a name after two dashes stands for. -/
def longSwitch? (verb : Verb) (name : String) : Option Switch :=
  verb.switches.find? fun switch => switch.long = name

/-- The switch of a command that a letter after one dash stands for. -/
def shortSwitch? (verb : Verb) (letter : Char) : Option Switch :=
  verb.switches.find? fun switch => switch.short? = some letter

end Verb

end Command

end ErasureDigest
