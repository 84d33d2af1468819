/-
VmProbe/Files/Tree.lean

Directories and files, as a value.  Paths are looked up part by part, and every part but the
last must be a directory; a part that is empty or a dot stays where it is and two dots lead
back.  A path that does not start at the root starts at the working directory.  Opening a
directory succeeds, reading it does not.
-/
import VmProbe.Files.Path

namespace VmProbe.Files

/-- Why a file operation failed. -/
inductive FileError
  | notFound
  | notDirectory
  | isDirectory
  | alreadyExists
  | nameTooLong
  /-- The path holds a character that no path can hold. -/
  | unusableName
  /-- Anything else, in the words of the system. -/
  | other (words : String)
  deriving DecidableEq, Repr

/-- The message of the system. -/
def FileError.message : FileError → String
  | notFound => "No such file or directory (os error 2)"
  | notDirectory => "Not a directory (os error 20)"
  | isDirectory => "Is a directory (os error 21)"
  | alreadyExists => "File exists (os error 17)"
  | nameTooLong => "File name too long (os error 36)"
  | unusableName => "file name contained an unexpected NUL byte"
  | other words => words

/-- A place in a tree, by the names that lead to it. -/
abbrev Place := List String

/-- The greatest number of bytes in a part of a path. -/
def partLimit : Nat := 255

/-- The greatest number of bytes in a path. -/
def pathLimit : Nat := 4095

/-- What is at a place. -/
inductive Entry
  | file (bytes : List UInt8)
  | directory
  deriving DecidableEq, Repr

/-- The directories and files of a tree; the top of the tree is always there. -/
structure Tree where
  entries : List (Place × Entry)
  /-- Where paths start that do not start at the root. -/
  working : Place
  deriving DecidableEq, Repr

namespace Tree

/-- A tree without entries. -/
def empty : Tree := ⟨[], []⟩

/-- A tree with one directory, which is empty and the working directory. -/
def directory (name : String) : Tree := ⟨[([name], .directory)], [name]⟩

/-- What is at a place. -/
def entry? (t : Tree) (place : Place) : Option Entry :=
  if place = [] then some .directory else (t.entries.find? (·.1 = place)).map (·.2)

/-- The tree with something else at a place. -/
def set (t : Tree) (place : Place) (e : Entry) : Tree :=
  { t with entries := (place, e) :: t.entries.filter (·.1 ≠ place) }

/-- Where a path starts. -/
def start (t : Tree) (path : String) : Place := if isAbsolute path then [] else t.working

/-- The place that path parts lead to from a place; the last part need not exist. -/
def walk (t : Tree) (place : Place) : List String → Except FileError Place
  | [] => .ok place
  | part :: rest =>
    match t.entry? place with
    | none => .error .notFound
    | some (.file _) => .error .notDirectory
    | some .directory =>
      if part = "" ∨ part = "." then t.walk place rest
      else if part = ".." then t.walk place.dropLast rest
      else if partLimit < part.utf8ByteSize then .error .nameTooLong
      else t.walk (place ++ [part]) rest

/-- Refuses what is no path at all. -/
def checkPath (path : String) : Except FileError Unit :=
  if path.toList.any (· = '\x00') then .error .unusableName
  else if path = "" then .error .notFound
  else if pathLimit < path.utf8ByteSize then .error .nameTooLong
  else .ok ()

/-- The place that a path names. -/
def place? (t : Tree) (path : String) : Except FileError Place :=
  (checkPath path).bind fun _ => t.walk (t.start path) (parts path)

/-- What a path names. -/
def find (t : Tree) (path : String) : Except FileError Entry :=
  match t.place? path with
  | .error e => .error e
  | .ok place =>
    match t.entry? place with
    | none => .error .notFound
    | some e => .ok e

/-- The content of an opened entry. -/
def Entry.read : Entry → Except FileError (List UInt8)
  | .file bytes => .ok bytes
  | .directory => .error .isDirectory

/-- The content of the file that a path names. -/
def contents (t : Tree) (path : String) : Except FileError (List UInt8) :=
  (t.find path).bind Entry.read

/-- The tree with the file that a path names set to some bytes; its directory must exist. -/
def write (t : Tree) (path : String) (bytes : List UInt8) : Except FileError Tree :=
  match t.place? path with
  | .error e => .error e
  | .ok place =>
    match t.entry? place.dropLast, t.entry? place with
    | none, _ => .error .notFound
    | some (.file _), _ => .error .notDirectory
    | some .directory, some .directory => .error .isDirectory
    | some .directory, _ => .ok (t.set place (.file bytes))

/-- Whether a path names a directory. -/
def isDirectory (t : Tree) (path : String) : Bool :=
  match t.find path with
  | .ok .directory => true
  | _ => false

/-- The tree with one more directory; the directory that it is in must exist. -/
def makeDirectory (t : Tree) (path : String) : Except FileError Tree :=
  match t.place? path with
  | .error e => .error e
  | .ok place =>
    match t.entry? place with
    | some _ => .error .alreadyExists
    | none => .ok (t.set place .directory)

/-- The tree with a directory that may be there already. -/
def ensureDirectory (t : Tree) (path : String) : Except FileError Tree :=
  match t.makeDirectory path with
  | .ok made => .ok made
  | .error e => if t.isDirectory path then .ok t else .error e

/-- Makes the first of some directories, and before that the others as far as they are missing;
each is in the one after it.  The directories that were made stay when a later one cannot be. -/
def ensureAll (t : Tree) : List String → Except FileError Unit × Tree
  | [] => (.ok (), t)
  | path :: above =>
    match t.ensureDirectory path with
    | .ok made => (.ok (), made)
    | .error .notFound =>
      match t.ensureAll above with
      | (.error e, made) => (.error e, made)
      | (.ok (), made) =>
        match made.ensureDirectory path with
        | .ok last => (.ok (), last)
        | .error e => (.error e, made)
    | .error e => (.error e, t)

/-- Makes a directory and those on its way. -/
def makeDirectories (t : Tree) (path : String) : Except FileError Unit × Tree :=
  t.ensureAll (ancestors path)

end Tree

end VmProbe.Files
