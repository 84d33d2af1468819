/-
VmProbe/Toml/Document.lean

Reading TOML documents.

A document is a sequence of lines, each blank, a header or a pair of a key and a value, and
each possibly with a comment at the end.  Values may run over several lines inside long
strings and arrays, but not inside inline tables.  Arrays and inline tables may be nested
seventy-nine deep, and a dotted key may have as many parts.

The readers take what is left of the document and return what they read and what is left
after it; `parse?` is the whole document.  Line breaks are made uniform first: a carriage
return is only allowed right before a line feed.
-/
import VmProbe.Toml.Quoted
import VmProbe.Toml.Scalar

namespace VmProbe.Toml

/-- How deep values may be nested, and how many parts a key may have. -/
def depthLimit : Nat := 79

/-- The document with line feeds alone. -/
def unifyBreaks? : List Char → Option (List Char)
  | [] => some []
  | '\r' :: '\n' :: rest => (unifyBreaks? rest).map ('\n' :: ·)
  | c :: rest => if c = '\r' then none else (unifyBreaks? rest).map (c :: ·)

/-- Skips blanks. -/
def skipBlanks (cs : List Char) : List Char := cs.dropWhile isBlank

/-- What follows the end of the line, which may hold blanks and a comment before it. -/
def endLine? (cs : List Char) : Option (List Char) :=
  match skipBlanks cs with
  | [] => some []
  | '\n' :: rest => some rest
  | '#' :: rest =>
    match rest.dropWhile isPlain with
    | [] => some []
    | '\n' :: rest' => some rest'
    | _ => none
  | _ => none

/-- Skips blanks, line breaks and comments. -/
def skipFiller (cs : List Char) : List Char :=
  match cs with
  | [] => []
  | c :: rest =>
    if isSpace c then skipFiller rest
    else if c = '#' then skipFiller (rest.dropWhile isPlain)
    else c :: rest
termination_by cs.length
decreasing_by
  · simp
  · have h := (List.dropWhile_sublist (l := rest) isPlain).length_le
    simp only [List.length_cons]
    omega

/-! ### Keys -/

/-- Whether a character may stand in a key without quotes. -/
def isBare (c : Char) : Bool := c.isAlphanum || c = '_' || c = '-'

/-- One part of a key. -/
def keyPart? : List Char → Option (String × List Char)
  | '"' :: rest => (basicText? rest).map fun x => (String.ofList x.1, x.2)
  | '\'' :: rest => (literalText? rest).map fun x => (String.ofList x.1, x.2)
  | cs =>
    let bare := cs.takeWhile isBare
    if bare = [] then none else some (String.ofList bare, cs.dropWhile isBare)

/-- A key of at most so many parts, with the blanks around it: all parts but the last, and the
last one. -/
def key? : Nat → List Char → Option ((List String × String) × List Char)
  | 0, _ => none
  | parts + 1, cs =>
    (keyPart? (skipBlanks cs)).bind fun x =>
      match skipBlanks x.2 with
      | '.' :: rest => (key? parts rest).map fun y => ((x.1 :: y.1.1, y.1.2), y.2)
      | rest => some (([], x.1), rest)

/-! ### Values -/

/-- The items of an array, from what follows the bracket or a comma. -/
def items? (item? : List Char → Option (Node × List Char)) :
    Nat → List Char → Option (List Node × List Char)
  | 0, _ => none
  | count + 1, cs =>
    match skipFiller cs with
    | ']' :: rest => some ([], rest)
    | cs =>
      (item? cs).bind fun x =>
        match skipFiller x.2 with
        | ',' :: rest => (items? item? count rest).map fun y => (x.1 :: y.1, y.2)
        | ']' :: rest => some ([x.1], rest)
        | _ => none

/-- A key, the sign and a value. -/
def pair? (value? : List Char → Option (Node × List Char)) (cs : List Char) :
    Option (Pair × List Char) :=
  (key? depthLimit cs).bind fun k =>
    match k.2 with
    | '=' :: rest => (value? (skipBlanks rest)).map fun v => (⟨k.1.1, k.1.2, v.1⟩, v.2)
    | _ => none

/-- The pairs of an inline table, at least one. -/
def pairs? (value? : List Char → Option (Node × List Char)) :
    Nat → List Char → Option (List Pair × List Char)
  | 0, _ => none
  | count + 1, cs =>
    (pair? value? cs).bind fun x =>
      match skipBlanks x.2 with
      | ',' :: rest => (pairs? value? count rest).map fun y => (x.1 :: y.1, y.2)
      | '}' :: rest => some ([x.1], rest)
      | _ => none

/-- The inline table of some pairs. -/
def record? (pairs : List Pair) : Option Node :=
  match assignAll pairs (.table .written []) with
  | some (.table _ fields) => some (.record fields)
  | _ => none

/-- A value, with at most so many levels of arrays and inline tables. -/
def value? (depth : Nat) (cs : List Char) : Option (Node × List Char) :=
  match cs with
  | '"' :: _ => (quoted? cs).map fun x => (.string (String.ofList x.1), x.2)
  | '\'' :: _ => (quoted? cs).map fun x => (.string (String.ofList x.1), x.2)
  | '[' :: rest =>
    match depth with
    | 0 => none
    | d + 1 => (items? (value? d) (rest.length + 1) rest).map fun x => (.array x.1, x.2)
  | '{' :: rest =>
    match depth with
    | 0 => none
    | d + 1 =>
      match skipBlanks rest with
      | '}' :: rest => some (.record [], rest)
      | rest =>
        (pairs? (value? d) (rest.length + 1) rest).bind fun x =>
          (record? x.1).map fun n => (n, x.2)
  | _ =>
    let w := word cs
    (scalar? w.1).map fun n => (n, w.2)

/-! ### Documents -/

/-- A line of a document that says something. -/
inductive Statement
  | header (h : Header)
  | pair (p : Pair)

/-- A header, from what follows its first bracket. -/
def header? (cs : List Char) : Option (Header × List Char) :=
  match cs with
  | '[' :: rest =>
    (key? depthLimit rest).bind fun k =>
      match k.2 with
      | ']' :: ']' :: rest => some (⟨true, k.1.1, k.1.2⟩, rest)
      | _ => none
  | _ =>
    (key? depthLimit cs).bind fun k =>
      match k.2 with
      | ']' :: rest => some (⟨false, k.1.1, k.1.2⟩, rest)
      | _ => none

/-- The statements of at most so many lines. -/
def statements? : Nat → List Char → Option (List Statement)
  | 0, _ => none
  | lines + 1, cs =>
    match skipBlanks cs with
    | [] => some []
    | '\n' :: rest => statements? lines rest
    | '#' :: rest => (endLine? ('#' :: rest)).bind (statements? lines)
    | '[' :: rest =>
      (header? rest).bind fun h =>
        (endLine? h.2).bind fun rest =>
          (statements? lines rest).map (.header h.1 :: ·)
    | cs =>
      (pair? (value? depthLimit) cs).bind fun p =>
        (endLine? p.2).bind fun rest =>
          (statements? lines rest).map (.pair p.1 :: ·)

/-- The pairs before the first header, and the headers with the pairs after each. -/
def blocks : List Statement → List Pair × List (Header × List Pair)
  | [] => ([], [])
  | .pair p :: rest => (p :: (blocks rest).1, (blocks rest).2)
  | .header h :: rest => ([], (h, (blocks rest).1) :: (blocks rest).2)

/-- Adds the tables of headers one after another. -/
def defineAll : List (Header × List Pair) → Node → Option Node
  | [], t => some t
  | (h, pairs) :: rest, t => (define h pairs t).bind (defineAll rest)

/-- The document that statements make. -/
def assemble? (statements : List Statement) : Option Fields :=
  let (pairs, headers) := blocks statements
  match (assignAll pairs (.table .written [])).bind (defineAll headers) with
  | some (.table _ fields) => some fields
  | _ => none

/-- Drops a byte order mark at the start. -/
def dropMark : List Char → List Char
  | '\uFEFF' :: rest => rest
  | cs => cs

/-- The fields of a document. -/
def parse? (s : String) : Option Fields :=
  (unifyBreaks? (dropMark s.toList)).bind fun cs =>
    (statements? (cs.length + 1) cs).bind assemble?

end VmProbe.Toml
