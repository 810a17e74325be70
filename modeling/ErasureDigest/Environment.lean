import ErasureDigest.Text.Numeral

/-!
# What a command starts with

The variables that are set when a command starts, and the account it runs
under. A variable that is not set, and one that does not hold a number where
a number is wanted, count alike: they say nothing.
-/

namespace ErasureDigest

/-- The variables that are set and the account of the user. -/
structure Environment where
  /-- The variables with their values; the first entry of a name counts. -/
  values : List (String × String)
  /-- The home directory of the account, if the system knows it. -/
  accountHome? : Option String := none

namespace Environment

/-- The value of a variable, if it is set. -/
def value? (env : Environment) (name : String) : Option String :=
  env.values.lookup name

/-- The number that a variable holds. -/
def number? (env : Environment) (name : String) : Option UInt64 :=
  (env.value? name).bind Numeral.parse?

/-- The number that a variable holds, or another where it holds none. -/
def numberOr (env : Environment) (name : String) (fallback : UInt64) : UInt64 :=
  (env.number? name).getD fallback

/-- The variable that names the home directory. -/
def homeVariable : String := "HOME"

/-- The user's home directory: the one that the variable names, else the one
of the account. An empty path names none. -/
def home? (env : Environment) : Option String :=
  [env.value? homeVariable, env.accountHome?].findSome? (·.filter (· ≠ ""))

/-- The home directory that a table of accounts gives for a user. Each line
is an account, its entries between colons; the third is the number of the
user and the sixth the home directory. -/
def homeInTable? (table user : String) : Option String :=
  (table.splitOn "\n").findSome? fun line =>
    match line.splitOn ":" with
    | _ :: _ :: number :: _ :: _ :: home :: _ => if number = user then some home else none
    | _ => none

end Environment

end ErasureDigest
