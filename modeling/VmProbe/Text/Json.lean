/-
VmProbe/Text/Json.lean

JSON documents without fractions: what an image or a listing becomes when a program is to
read it.  `compact` writes no blanks at all; `pretty` indents by two spaces a level, one item
a line, and leaves empty arrays and objects closed.  In strings only the quote, the backslash
and the control characters below the blank are escaped, the five common ones by a letter.
-/
import VmProbe.Text.Hex

namespace VmProbe.Text

/-- A JSON document; the fields of an object keep their order. -/
inductive Json
  | number (n : Nat)
  | string (s : String)
  | array (items : List Json)
  | object (fields : List (String × Json))

namespace Json

/-- A character inside a string. -/
def escapeChar (c : Char) : List Char :=
  if c = '"' then ['\\', '"']
  else if c = '\\' then ['\\', '\\']
  else if c = '\x08' then ['\\', 'b']
  else if c = '\x0c' then ['\\', 'f']
  else if c = '\n' then ['\\', 'n']
  else if c = '\r' then ['\\', 'r']
  else if c = '\t' then ['\\', 't']
  else if c.toNat < 32 then '\\' :: 'u' :: fixedHexDigits .lower 4 c.toNat
  else [c]

/-- A quoted string. -/
def quote (s : String) : String :=
  String.ofList ('"' :: s.toList.flatMap escapeChar ++ ['"'])

/-- A text between two brackets. -/
def enclosed (opening : Char) (text : String) (closing : Char) : String :=
  String.singleton opening ++ text ++ String.singleton closing

mutual

/-- The document without blanks. -/
def compact : Json → String
  | number n => toString n
  | string s => quote s
  | array items => enclosed '[' (compactItems items) ']'
  | object fields => enclosed '{' (compactFields fields) '}'

/-- Items, a comma between two. -/
def compactItems : List Json → String
  | [] => ""
  | [x] => compact x
  | x :: y :: rest => compact x ++ "," ++ compactItems (y :: rest)

/-- Fields, a comma between two. -/
def compactFields : List (String × Json) → String
  | [] => ""
  | [(k, x)] => quote k ++ ":" ++ compact x
  | (k, x) :: y :: rest => quote k ++ ":" ++ compact x ++ "," ++ compactFields (y :: rest)

end

/-- A line break and the blanks of a level. -/
def newline (level : Nat) : String := "\n" ++ String.ofList (List.replicate (2 * level) ' ')

mutual

/-- The document at a level of indentation. -/
def prettyAt (level : Nat) : Json → String
  | number n => toString n
  | string s => quote s
  | array [] => "[]"
  | array (x :: rest) =>
    enclosed '[' (prettyItems (level + 1) (x :: rest) ++ newline level) ']'
  | object [] => "{}"
  | object (f :: rest) =>
    enclosed '{' (prettyFields (level + 1) (f :: rest) ++ newline level) '}'

/-- Items, each on a line of its own. -/
def prettyItems (level : Nat) : List Json → String
  | [] => ""
  | [x] => newline level ++ prettyAt level x
  | x :: y :: rest =>
    newline level ++ prettyAt level x ++ "," ++ prettyItems level (y :: rest)

/-- Fields, each on a line of its own. -/
def prettyFields (level : Nat) : List (String × Json) → String
  | [] => ""
  | [(k, x)] => newline level ++ quote k ++ ": " ++ prettyAt level x
  | (k, x) :: y :: rest =>
    newline level ++ quote k ++ ": " ++ prettyAt level x ++ "," ++ prettyFields level (y :: rest)

end

/-- The document over several lines. -/
def pretty (j : Json) : String := prettyAt 0 j

end Json

end VmProbe.Text
