import ErasureDigest.Settings.Layer

/-!
# What a command line asks for

A command with its options, and the settings file that was named for it.
-/

namespace ErasureDigest

namespace Command

/-- What to do with the settings file. -/
inductive FileAction
  /-- Show the settings in force. -/
  | display
  /-- Tell where the file is. -/
  | locate
  /-- Write the file with the settings in force without it; an earlier file
  is replaced only by force. -/
  | create (force : Bool)
  deriving DecidableEq, Repr

/-- A command with its options. -/
inductive Request
  /-- Hash a target with the settings named on the command line; the digest
  is given as JSON if that is asked for. -/
  | hash (target : String) (flags : Layer) (json : Bool)
  /-- Do something with the settings file. -/
  | settings (action : FileAction)
  deriving DecidableEq

/-- A command, and the settings file that was named for it. -/
structure Invocation where
  settingsPath? : Option String
  request : Request
  deriving DecidableEq

/-- The target that stands for standard input. -/
def standardInput : String := "-"

end Command

end ErasureDigest
