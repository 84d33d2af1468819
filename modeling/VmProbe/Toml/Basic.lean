/-
VmProbe/Toml/Basic.lean

Documents of the TOML configuration language, as trees.

A table may come into being in three ways: its own header was written, it lies on the way to
a table whose header was written, or it lies on a dotted key.  Which of these happened decides
what may still be added (`Origin`).  An inline table and an array are complete as they stand.

`assign` adds a key with a value to a table, and `define` adds the table of a header; both
fail when the document already says something else there.
-/
namespace VmProbe.Toml

/-- How a table came into being. -/
inductive Origin
  /-- Its own header was written, or it is the document. -/
  | written
  /-- It lies on the way to the table of a header. -/
  | implied
  /-- It lies on a dotted key. -/
  | dotted
  deriving DecidableEq, Repr

/-- A value of a document; the text of floats and dates is kept as it was written. -/
inductive Node
  | string (s : String)
  | integer (n : Int)
  | float (text : String)
  | boolean (b : Bool)
  | datetime (text : String)
  | array (items : List Node)
  /-- An inline table. -/
  | record (fields : List (String × Node))
  | table (origin : Origin) (fields : List (String × Node))
  /-- The tables of an array of tables, the first one first. -/
  | tables (elements : List Node)

/-- The fields of a table, in the order of the document. -/
abbrev Fields := List (String × Node)

/-- The value of a key. -/
def find? (key : String) (fields : Fields) : Option Node :=
  (fields.find? (·.1 = key)).map (·.2)

/-- The fields with another value for a key that is there. -/
def replace (key : String) (value : Node) (fields : Fields) : Fields :=
  fields.map fun f => if f.1 = key then (key, value) else f

/-- Changes the table at the end of a path, making the tables on the way that are missing.  A
dotted key must not lead through a table that has a header. -/
def alter (made : Origin) (change : Node → Option Node) : List String → Node → Option Node
  | [], t => change t
  | key :: path, .table origin fields =>
    match find? key fields with
    | none =>
      (alter made change path (.table made [])).map fun t => .table origin (fields ++ [(key, t)])
    | some (.tables elements) =>
      match elements.getLast? with
      | none => none
      | some last =>
        (alter made change path last).map fun t =>
          .table origin (replace key (.tables (elements.dropLast ++ [t])) fields)
    | some (.table existing inner) =>
      if made = .dotted ∧ existing = .written then none
      else
        (alter made change path (.table existing inner)).map fun t =>
          .table origin (replace key t fields)
    | some _ => none
  | _ :: _, _ => none

/-- Adds a value under a dotted key, given as the path and the last part. -/
def assign (path : List String) (key : String) (value : Node) : Node → Option Node :=
  alter .dotted (fun
    | .table origin fields =>
      if origin = .dotted ↔ path = [] then none
      else if (find? key fields).isSome then none
      else some (.table origin (fields ++ [(key, value)]))
    | _ => none) path

/-- A key with its value. -/
structure Pair where
  path : List String
  key : String
  value : Node

/-- Adds pairs one after another. -/
def assignAll : List Pair → Node → Option Node
  | [], t => some t
  | p :: ps, t => (assign p.path p.key p.value t).bind (assignAll ps)

/-- The header of a table, or of one more table of an array. -/
structure Header where
  isArray : Bool
  path : List String
  key : String

/-- Adds the table of a header, with its pairs, to the document. -/
def define (h : Header) (pairs : List Pair) : Node → Option Node :=
  alter .implied (fun
    | .table origin fields =>
      match h.isArray, find? h.key fields with
      | true, none =>
        (assignAll pairs (.table .written [])).map fun t =>
          .table origin (fields ++ [(h.key, .tables [t])])
      | true, some (.tables elements) =>
        (assignAll pairs (.table .written [])).map fun t =>
          .table origin (replace h.key (.tables (elements ++ [t])) fields)
      | false, none =>
        (assignAll pairs (.table .written [])).map fun t =>
          .table origin (fields ++ [(h.key, t)])
      | false, some (.table .implied inner) =>
        (assignAll pairs (.table .written inner)).map fun t =>
          .table origin (replace h.key t fields)
      | _, _ => none
    | _ => none) h.path

end VmProbe.Toml
