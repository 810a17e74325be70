import ErasureDigest.Command.Invocation
import ErasureDigest.Settings.Store

/-!
# Failures of commands

A failure is told as a chain: what could not be done, and what is behind it.
-/

namespace ErasureDigest

namespace Command

/-- Why a command failed. -/
inductive Failure
  /-- The settings could not be loaded, saved or used. -/
  | settings (fault : SettingsFault)
  /-- A target could not be hashed. -/
  | hash (target : String) (error : Error)
  deriving DecidableEq, Repr

namespace Failure

/-- What could not be done to a target. -/
def headline (target : String) : String :=
  if target = standardInput then "Failed to hash standard input" else s!"Failed to hash {target}"

/-- The failure in words, what is behind it coming after. -/
def chain : Failure → List String
  | settings fault => fault.chain
  | hash target error =>
    [headline target, error.message] ++ error.cause?.toList.map IoFault.message

/-- The causes behind a failure, one a line; several are numbered. -/
def causes : List String → List String
  | [] => []
  | [cause] => ["", "Caused by:", "    " ++ cause]
  | several => ["", "Caused by:"] ++ several.mapIdx fun index cause => s!"    {index}: {cause}"

/-- The lines that report a failure. -/
def report (failure : Failure) : List String :=
  match failure.chain with
  | [] => []
  | first :: rest => s!"Error: {first}" :: causes rest

end Failure

end Command

end ErasureDigest
