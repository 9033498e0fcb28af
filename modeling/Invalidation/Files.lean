import Invalidation.Saved.Graph

/-! Files that graphs are saved to: a tree of directories in which paths lead to contents. A path
that begins with a slash starts at the root of the tree, and any other at the working directory. The
root is its own parent.
-/

namespace Invalidation

/-- The names on the way from the root of the tree. -/
abbrev Location := List String

/-- A tree of files, seen from a working directory. -/
structure Files where
  working : Location
  directories : List Location
  contents : List (Location × Bytes)

/-- A path, taken apart at its slashes; several slashes in a row count as one. -/
structure Path where
  /-- Whether the path starts at the root. -/
  absolute : Bool
  parts : List String
  /-- Whether a slash stands at the end, so that the path asks for a directory. -/
  closed : Bool
deriving DecidableEq

namespace Path

/-- The greatest number of bytes of a path. -/
def limit : Nat := 4095

/-- The greatest number of bytes of a name on a path. -/
def nameLimit : Nat := 255

/-- Takes a text apart as a path. A text that holds the character zero is refused for that before
its length is looked at.
-/
def parse (text : String)
    : Except FileFailure Path :=
  if text.toList.contains '\x00' then .error .invalidPath
  else if text = "" then .error .notFound
  else if limit < text.utf8ByteSize then .error .tooLong
  else .ok {
    absolute := text.toList.head? = some '/'
    parts := (text.splitOn "/").filter (· ≠ "")
    closed := text.toList.getLast? = some '/'
  }

end Path

namespace Files

/-- A tree that holds the way to the working directory, and empty directories right below that. -/
def withDirectories (working : Location) (names : List String)
    : Files := {
  working
  directories := (List.range (working.length + 1)).map working.take
    ++ names.map fun name => working ++ [name]
  contents := []
}

def file? (files : Files) (location : Location) : Option Bytes := files.contents.lookup location

def isDirectory (files : Files) (location : Location) : Bool := files.directories.contains location

/-- Takes one part of a path from a location, which has to be a directory: "." stays, ".." goes up,
and a name leads down, maybe to nothing.
-/
def enter (files : Files) (start : Location) (part : String)
    : Except FileFailure Location :=
  if !files.isDirectory start then
    .error (if (files.file? start).isSome then .notADirectory else .notFound)
  else if part = "." then .ok start
  else if part = ".." then .ok start.dropLast
  else if Path.nameLimit < part.utf8ByteSize then .error .tooLong
  else .ok (start ++ [part])

/-- Follows parts of a path, one after the other. -/
def follow (files : Files) (path : Path) (parts : List String)
    : Except FileFailure Location :=
  parts.foldlM files.enter (if path.absolute then [] else files.working)

/-- The contents of the file at a path. A path that asks for a directory has to lead to one, whose
contents cannot be read.
-/
def read (files : Files) (text : String)
    : Except FileFailure Bytes := do
  let path ← Path.parse text
  let location ← files.follow path (path.parts ++ if path.closed then ["."] else [])
  if files.isDirectory location then throw .isADirectory
  match files.file? location with
  | some bytes => return bytes
  | none => throw .notFound

/-- Gives the file at a path new contents, or makes it in a directory that is there. A path that
asks for a directory is refused, whatever it leads to.
-/
def write (files : Files) (text : String) (bytes : Bytes)
    : Except FileFailure Files := do
  let path ← Path.parse text
  match path.parts.getLast? with
  | none => throw .isADirectory
  | some name =>
      let directory ← files.follow path (path.parts.dropLast ++ ["."])
      if path.closed ∨ name = "." ∨ name = ".." then throw .isADirectory
      let location ← files.enter directory name
      if files.isDirectory location then throw .isADirectory
      return { files with
        contents := (location, bytes) :: files.contents.filter (·.1 ≠ location) }

end Files

namespace Graph

/-- Saves a graph to a file. The graph is encoded before the file is opened, so a log hears of it
even if the file cannot be made.
-/
def saveFile (graph : Graph) (files : Files) (path : String)
    : Outcome (Except Error Files) :=
  let saved := graph.save
  { saved with
    answer := saved.answer.bind fun bytes => (files.write path bytes).mapError .file }

/-- Loads a graph from a file. A missing file means that there is no prior build. -/
def loadFile (files : Files) (path : String) (options : Options)
    : Except Error Graph :=
  match files.read path with
  | .ok bytes => load bytes options
  | .error .notFound => .error (.unavailable (.noPriorGraph path))
  | .error failure => .error (.file failure)

end Graph

end Invalidation
