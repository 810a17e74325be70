import ErasureDigest.Command.Run

/-!
# The program

Takes in the variables, files and input that the command looks at, runs it on
the cores there are, and writes out what it changed and what it has to say.
-/

namespace ErasureDigest

namespace Program

/-- What the system tells in a file of its own; nothing if it cannot be
read. -/
def systemText (path : String) : IO String := do
  match ← (IO.FS.readFile path).toBaseIO with
  | .ok text => pure text
  | .error _ => pure ""

/-- The home directory of the account that the program runs under. -/
def accountHome? : IO (Option String) := do
  let status := (← systemText "/proc/self/status").splitOn "\n"
  let users := status.filterMap fun line =>
    match line.splitOn "\t" with
    | "Uid:" :: user :: _ => some user
    | _ => none
  let table ← systemText "/etc/passwd"
  pure (users.head?.bind (Environment.homeInTable? table))

/-- The variables that commands look at, and the account. -/
def environment : IO Environment := do
  let names := [Environment.homeVariable, Command.Draft.settingsVariable,
    Layer.segmentSizeVariable, Layer.dataShardsVariable, Layer.parityShardsVariable]
  let values ← names.filterMapM fun name => do
    pure ((← IO.getEnv name).map fun value => (name, value))
  pure ⟨values, ← accountHome?⟩

/-- The number of cores; zero if the system does not tell. -/
def cores : IO Nat := do
  let lines := (← systemText "/proc/cpuinfo").splitOn "\n"
  pure (lines.countP (·.startsWith "processor"))

/-- The working directory, with the directories that hold it. -/
def workingDirectory : IO FileSystem := do
  let path := (← IO.currentDir).toString
  pure ((FileSystem.empty (Path.names path)).createDirectories path).2

/-- The tree with what stands at a path. -/
def look (fs : FileSystem) (path : String) : IO FileSystem := do
  let seen ← (IO.FS.readBinFile path).toBaseIO
  pure <| Except.toOption (match seen with
    | .ok content => fs.write path content.toList
    | .error (.inappropriateType _ 21 _) => fs.createDirectory path
    | .error _ => .ok fs) |>.getD fs

/-- The tree with what stands at a path and on the way to it. -/
def takeIn (fs : FileSystem) (path : String) : IO FileSystem :=
  (Path.ancestors path).reverse.foldlM look fs

/-- Writes out a change. -/
def writeOut (path : String) (node : Node) : IO Unit := do
  match node with
  | .directory _ => IO.FS.createDir path
  | .file content => IO.FS.writeBinFile path ⟨content.toArray⟩

/-- Everything that can still be read. -/
partial def readAll (stream : IO.FS.Stream) (before : ByteArray) : IO ByteArray := do
  let piece ← stream.read 65536
  if piece.isEmpty then pure before else readAll stream (before ++ piece)

/-- Prints lines. -/
def print (stream : IO.FS.Stream) (lines : List String) : IO Unit := do
  for line in lines do
    stream.putStrLn line

end Program

end ErasureDigest

open ErasureDigest in
/-- Runs the program and gives its exit status. -/
def main (arguments : List String) : IO UInt32 := do
  let env ← Program.environment
  let here ← Program.workingDirectory
  let (before, input) ←
    match Command.Invocation.ofArguments arguments env with
    | .error _ => pure (here, [])
    | .ok invocation => do
      let fs ← (invocation.paths env).foldlM Program.takeIn here
      if invocation.readsInput then
        pure (fs, (← Program.readAll (← IO.getStdin) .empty).toList)
      else pure (fs, [])
  let outcome := Command.run arguments env before (.ofBytes input) (← Program.cores)
  for (path, node) in outcome.fs.changesSince before do
    Program.writeOut path node
  Program.print (← IO.getStdout) outcome.output
  Program.print (← IO.getStderr) (outcome.warnings ++ outcome.report)
  pure (UInt32.ofNat outcome.status)
