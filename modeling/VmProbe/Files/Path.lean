/-
VmProbe/Files/Path.lean

Paths as text: joining a name to a directory, and the directories that a path leads through.
Only the text counts here, so two dots are a name like any other.
-/
namespace VmProbe.Files

/-- The parts of a path between its separators. -/
def splitParts : List Char → List (List Char)
  | [] => [[]]
  | c :: cs =>
    if c = '/' then [] :: splitParts cs
    else
      match splitParts cs with
      | [] => [[c]]
      | part :: parts => (c :: part) :: parts

/-- The parts of a path. -/
def parts (path : String) : List String := (splitParts path.toList).map String.ofList

/-- The path of a name inside a directory. -/
def join (directory name : String) : String :=
  match directory.toList.getLast? with
  | none => name
  | some c => if c = '/' then directory ++ name else directory ++ "/" ++ name

/-- Whether a path starts at the root. -/
def isAbsolute (path : String) : Bool := path.toList.head? = some '/'

/-- The paths that end at one of the given parts, which are those of a path backwards.  A part
at the end that leads nowhere else counts only when it is the first one. -/
def pathsThrough : List String → List String
  | [] => []
  | [first] => [if first = "" then "/" else first]
  | last :: above =>
    if last = "" ∨ last = "." then pathsThrough above
    else "/".intercalate (last :: above).reverse :: pathsThrough above

/-- A path and the directories that it leads through, the path itself first. -/
def ancestors (path : String) : List String :=
  if path = "" then [] else pathsThrough (parts path).reverse

/-- The directory of a path as it is written, if the path names something in a directory. -/
def parent? (path : String) : Option String :=
  match ancestors path with
  | [] => none
  | [only] => if only = "/" then none else some ""
  | _ :: above :: _ => some above

end VmProbe.Files
