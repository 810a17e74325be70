import ErasureDigest.Stream.Source

/-!
# Files and directories

A file system is a tree of named directories and files. Paths are texts; a
relative one starts at the working directory. Names are looked up one after
the other, so a path through a file, through nothing or through a name that
is too long fails as the system would make it fail.

The directories are numbered and a directory's entries name those below it,
so a change touches the entries of one directory (`FileSystem.lookIn?_put`)
and no other name anywhere. The changes of a run stand in front of those
before it (`FileSystem.changesSince`).
-/

namespace ErasureDigest

/-! ## Paths -/

namespace Path

/-- Whether a path starts at the root. -/
def isAbsolute (path : String) : Bool := path.toList.head? = some '/'

/-- Whether a path ends with a slash. -/
def endsWithSlash (path : String) : Bool := path.toList.getLast? = some '/'

/-- The bytes that the longest name takes. -/
def maxNameSize : Nat := 255

/-- The bytes that the longest path takes. -/
def maxSize : Nat := 4095

/-- What is wrong with a path by itself, whatever stands where it leads. -/
def fault? (path : String) : Option IoFault :=
  if path.toList.contains '\x00' then some .zeroInPath
  else if maxSize < path.utf8ByteSize then some (.system .nameTooLong)
  else if path.isEmpty then some (.system .noEntry)
  else none

/-- The characters between slashes, empty stretches included. -/
def between : (chars : List Char) → List (List Char)
  | [] => [[]]
  | char :: rest =>
    if char = '/' then [] :: between rest else (between rest).modifyHead (char :: ·)

/-- The names between the slashes of a path, empty ones included. -/
def parts (path : String) : List String := (between path.toList).map String.ofList

/-- The names that a path leads through. -/
def names (path : String) : List String := (parts path).filter (· ≠ "")

/-- A name below a directory. -/
def join (directory name : String) : String :=
  if endsWithSlash directory then directory ++ name else directory ++ "/" ++ name

/-- The names between the slashes of a path, empty ones included, each
with the length of the path up to its end. -/
def spans (path : String) : List (String × Nat) :=
  let rec go (length : Nat) : List String → List (String × Nat)
    | [] => []
    | name :: rest => (name, length + name.length) :: go (length + name.length + 1) rest
  go 0 (parts path)

/-- The spans that count: empty names and single dots say nothing, except
for a dot that begins a relative path. -/
def steps (path : String) : List (String × Nat) :=
  match spans path with
  | [] => []
  | first :: rest =>
    (if first.1 = "" then [] else [first]) ++ rest.filter fun s => s.1 ≠ "" ∧ s.1 ≠ "."

/-- The lengths of the paths of the directories that hold what a path names,
the nearest first. The root and the empty path are held by none. -/
def holderLengths (path : String) : List Nat :=
  match (steps path).reverse with
  | [] => []
  | _ :: above => above.map (·.2) ++ [if isAbsolute path then 1 else 0]

/-- The first characters of a path. -/
def upTo (path : String) (length : Nat) : String := String.ofList (path.toList.take length)

/-- The path of the directory that holds what a path names. The root and
the empty path have none. -/
def parent? (path : String) : Option String := (holderLengths path).head?.map (upTo path)

/-- A path and those of the directories that hold what it names. -/
def ancestors (path : String) : List String := path :: (holderLengths path).map (upTo path)

end Path

/-! ## The tree -/

/-- What a name stands for. -/
inductive Node
  | file (content : Bytes)
  /-- A directory, by its number. -/
  | directory (number : Nat)
  deriving DecidableEq, Repr

/-- A tree of directories and files. -/
structure FileSystem where
  /-- The entries of the directories by number, the root being number zero.
  The first entry of a name counts. -/
  directories : Array (List (String × Node))
  /-- The names that lead from the root to where relative paths start. -/
  workDir : List String
  /-- What was put under which path, the latest first. -/
  changes : List (String × Node)

/-- Where names lead. -/
structure Place where
  /-- The directories on the way, with the name taken in each, the last
  first. -/
  trail : List (Nat × String)
  /-- What stands there. -/
  node? : Option Node

namespace Place

/-- The root. -/
def root : Place := ⟨[], some (.directory 0)⟩

/-- The place one directory up; above the root is the root. -/
def up : Place → Place
  | ⟨[], node?⟩ => ⟨[], node?⟩
  | ⟨(directory, _) :: trail, _⟩ => ⟨trail, some (.directory directory)⟩

end Place

namespace FileSystem

/-- The tree of an empty root. -/
def empty (workDir : List String) : FileSystem := ⟨#[[]], workDir, []⟩

/-- What a name stands for in a directory. -/
def lookIn? (fs : FileSystem) (directory : Nat) (name : String) : Option Node :=
  (fs.directories[directory]?.getD []).lookup name

/-- Puts something at a place; nothing can take the root's. -/
def put (fs : FileSystem) (path : String) (place : Place) (node : Node) : FileSystem :=
  match place.trail with
  | [] => fs
  | (directory, name) :: _ =>
    { fs with
      directories := fs.directories.modify directory ((name, node) :: ·)
      changes := (path, node) :: fs.changes }

/-- Putting something changes one name of one directory. -/
theorem lookIn?_put {fs : FileSystem} {path : String} {node : Node} {directory other : Nat}
    {name otherName : String} {trail : List (Nat × String)} {node? : Option Node}
    (h : directory < fs.directories.size) :
    (fs.put path ⟨(directory, name) :: trail, node?⟩ node).lookIn? other otherName =
      if other = directory ∧ otherName = name then some node else fs.lookIn? other otherName := by
  simp only [put, lookIn?, Array.getElem?_modify]
  by_cases hd : other = directory
  · subst hd
    by_cases hn : otherName = name
    · subst hn
      simp [Array.getElem?_eq_getElem h]
    · have : (otherName == name) = false := beq_false_of_ne hn
      simp [Array.getElem?_eq_getElem h, List.lookup_cons, this, hn]
  · have : ¬ directory = other := fun h' => hd h'.symm
    simp [this, hd]

/-- Puts an empty directory at a place. -/
def putDirectory (fs : FileSystem) (path : String) (place : Place) : FileSystem :=
  { fs with directories := fs.directories.push [] }.put path place
    (.directory fs.directories.size)

/-- What was put since an earlier state of the tree, the oldest first. -/
def changesSince (fs before : FileSystem) : List (String × Node) :=
  (fs.changes.take (fs.changes.length - before.changes.length)).reverse

/-! ## Looking up -/

/-- The place of a name in a directory that the trail leads to. -/
def below (fs : FileSystem) (trail : List (Nat × String)) (directory : Nat) (name : String) :
    Place :=
  ⟨(directory, name) :: trail, fs.lookIn? directory name⟩

/-- The place that names lead to from another. What stands there is left
open; everything on the way must be a directory, and a name is looked at
only in a directory that is there. -/
def walk (fs : FileSystem) (place : Place) : List String → Except SystemFault Place
  | [] => .ok place
  | name :: rest =>
    match place.node? with
    | none => .error .noEntry
    | some (.file _) => .error .notDirectory
    | some (.directory directory) =>
      if name = "." then fs.walk place rest
      else if name = ".." then fs.walk place.up rest
      else if Path.maxNameSize < name.utf8ByteSize then .error .nameTooLong
      else fs.walk (fs.below place.trail directory name) rest

/-- The place that names lead to from where a path starts. -/
def follow (fs : FileSystem) (path : String) (names : List String) : Except IoFault Place :=
  match Path.fault? path with
  | some fault => .error fault
  | none =>
    (fs.walk .root ((if Path.isAbsolute path then [] else fs.workDir) ++ names)).mapError .system

/-- The place that a path names. A slash at the end asks for a directory, as
a dot would. -/
def locate (fs : FileSystem) (path : String) : Except IoFault Place :=
  fs.follow path (Path.names path ++ if Path.endsWithSlash path then ["."] else [])

/-- What a path names. -/
def lookup (fs : FileSystem) (path : String) : Except IoFault Node := do
  match (← fs.locate path).node? with
  | none => .error (.system .noEntry)
  | some node => pure node

/-- Whether a path names something. -/
def exists? (fs : FileSystem) (path : String) : Bool :=
  (fs.lookup path).toOption.isSome

/-- Whether a path names a directory. -/
def isDirectory (fs : FileSystem) (path : String) : Bool :=
  match fs.lookup path with
  | .ok (.directory _) => true
  | _ => false

/-! ## Reading -/

/-- Opens what a path names. A directory can be opened, but not read. -/
def openSource (fs : FileSystem) (path : String) : Except IoFault Source :=
  match fs.lookup path with
  | .error fault => .error fault
  | .ok (.file content) => .ok (.ofBytes content)
  | .ok (.directory _) => .ok (.failing (.system .isDirectory))

/-- The content of a file. -/
def read (fs : FileSystem) (path : String) : Except IoFault Bytes :=
  match fs.lookup path with
  | .error fault => .error fault
  | .ok (.file content) => .ok content
  | .ok (.directory _) => .error (.system .isDirectory)

/-- The content of a file that holds text. -/
def readText (fs : FileSystem) (path : String) : Except IoFault String := do
  let content ← fs.read path
  match content.utf8? with
  | none => .error .notText
  | some text => pure text

/-! ## Writing -/

/-- Makes a directory where nothing stands. -/
def createDirectory (fs : FileSystem) (path : String) : Except IoFault FileSystem := do
  let place ← fs.follow path (Path.names path)
  match place.node? with
  | some _ => .error (.system .alreadyExists)
  | none => pure (fs.putDirectory path place)

/-- Makes the directory whose path has the first of these lengths, the others
being those of the directories that hold it, which are made first where they
are missing. Gives the tree as it is afterwards, also when that fails. -/
def createAll (fs : FileSystem) (path : String) :
    (lengths : List Nat) → Except IoFault Unit × FileSystem
  | [] => (.error (.other "failed to create whole tree"), fs)
  | length :: holders =>
    let here := Path.upTo path length
    if here.isEmpty then (.ok (), fs)
    else
      match fs.createDirectory here with
      | .ok fs => (.ok (), fs)
      | .error (.system .noEntry) =>
        -- the holder is missing: make it, then try again
        match fs.createAll path holders with
        | (.error fault, fs) => (.error fault, fs)
        | (.ok (), fs) =>
          match fs.createDirectory here with
          | .ok fs => (.ok (), fs)
          | .error fault => (if fs.isDirectory here then .ok () else .error fault, fs)
      | .error fault => (if fs.isDirectory here then .ok () else .error fault, fs)

/-- Makes a directory and those that hold it, where they are missing. Gives
the tree as it is afterwards, also when that fails. -/
def createDirectories (fs : FileSystem) (path : String) : Except IoFault Unit × FileSystem :=
  fs.createAll path (path.length :: Path.holderLengths path)

/-- Makes a file with this content, in place of an earlier one. Only opening
the file can fail: what is then written finds room. -/
def write (fs : FileSystem) (path : String) (content : Bytes) : Except IoFault FileSystem := do
  if Path.endsWithSlash path then
    -- a slash at the end names a directory, whatever stands in the one above
    let _ ← fs.follow path ((Path.names path).dropLast ++ ["."])
    .error (.system .isDirectory)
  else
    let place ← fs.locate path
    match place.node? with
    | some (.directory _) => .error (.system .isDirectory)
    | _ => pure (fs.put path place (.file content))

end FileSystem

end ErasureDigest
