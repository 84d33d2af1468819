/-
VmProbe/Toml/Quoted.lean

Strings of TOML documents, in their four forms.

Basic strings stand in double quotes and know escapes; literal strings stand in single quotes
and mean what they show.  Three quotes open a form that may run over several lines; a line
break right after them is dropped, and in the basic form a backslash at the end of a line
drops the break and all blanks up to the next character.  Up to two quotes may stand right
before the closing three.

A writer takes the first form of this list that can show the text: basic without escapes, literal,
basic over several lines without escapes except for tabs, literal over several lines, and otherwise
basic with escapes, over several lines if the text has a line break.  Tabs are always escaped
in a basic form.
-/
import VmProbe.Text.Hex

namespace VmProbe.Toml

/-- Whether a character may stand for itself in a comment or a string. -/
def isPlain (c : Char) : Bool := c = '\t' || (32 ≤ c.toNat && c.toNat ≠ 127)

/-- Whether a character is a blank. -/
def isBlank (c : Char) : Bool := c = ' ' || c = '\t'

/-- Whether a character is a blank or ends a line. -/
def isSpace (c : Char) : Bool := isBlank c || c = '\n'

/-! ### Reading -/

/-- The character with a code point in hexadecimal digits. -/
def codePoint? (digits : List Char) : Option Char :=
  (Text.readDigits? 16 Text.hexValue? 0 digits).bind fun n =>
    if n.isValidChar then some (Char.ofNat n) else none

/-- The character that a letter after a backslash stands for. -/
def escapeLetter? (c : Char) : Option Char :=
  if c = 'b' then some '\x08'
  else if c = 't' then some '\t'
  else if c = 'n' then some '\n'
  else if c = 'f' then some '\x0c'
  else if c = 'r' then some '\r'
  else if c = '"' then some '"'
  else if c = '\\' then some '\\'
  else none

/-- The number of digits that a letter after a backslash calls for. -/
def codePointDigits? (c : Char) : Option Nat :=
  if c = 'u' then some 4 else if c = 'U' then some 8 else none

/-- The character of an escape, from what follows the backslash. -/
def escape? : List Char → Option (Char × List Char)
  | [] => none
  | c :: rest =>
    match escapeLetter? c, codePointDigits? c with
    | some x, _ => some (x, rest)
    | none, some n =>
      if rest.length < n then none
      else (codePoint? (rest.take n)).map fun x => (x, rest.drop n)
    | none, none => none

theorem length_of_escape? {cs rest : List Char} {c : Char} (h : escape? cs = some (c, rest)) :
    rest.length < cs.length := by
  unfold escape? at h
  split at h
  · cases h
  · split at h
    · cases h
      simp
    · split at h
      · cases h
      · obtain ⟨x, -, hx⟩ := Option.map_eq_some_iff.1 h
        cases hx
        simp only [List.length_drop, List.length_cons]
        omega
    · cases h

/-- Puts a character before a text that was read. -/
def consText (c : Char) (x : Option (List Char × List Char)) : Option (List Char × List Char) :=
  x.map fun y => (c :: y.1, y.2)

/-- The text of a basic string, from what follows the opening quote. -/
def basicText? (cs : List Char) : Option (List Char × List Char) :=
  match cs with
  | [] => none
  | c :: rest =>
    if c = '"' then some ([], rest)
    else if c = '\\' then
      match h : escape? rest with
      | none => none
      | some (x, rest') =>
        have := length_of_escape? h
        consText x (basicText? rest')
    else if isPlain c then consText c (basicText? rest)
    else none
termination_by cs.length
decreasing_by
  · simp only [List.length_cons]
    omega
  · simp

/-- The text of a literal string, from what follows the opening quote. -/
def literalText? : List Char → Option (List Char × List Char)
  | [] => none
  | c :: rest =>
    if c = '\'' then some ([], rest)
    else if isPlain c then consText c (literalText? rest)
    else none

/-- The quotes that belong to the text before the closing three, and what follows these; the
argument is what follows the first three quotes of the run. -/
def closing (quote : Char) : List Char → List Char × List Char
  | a :: b :: rest =>
    if a = quote ∧ b = quote then ([a, b], rest)
    else if a = quote then ([a], b :: rest)
    else ([], a :: b :: rest)
  | [a] => if a = quote then ([a], []) else ([], [a])
  | [] => ([], [])

/-- Whether three quotes come next. -/
def startsWithThree (quote : Char) : List Char → Bool
  | a :: b :: c :: _ => a = quote && b = quote && c = quote
  | _ => false

/-- What follows a backslash at the end of a line, a line break and all blanks after it. -/
def foldLine? (cs : List Char) : Option (List Char) :=
  match cs.dropWhile isBlank with
  | '\n' :: rest => some (rest.dropWhile isSpace)
  | _ => none

theorem length_of_foldLine? {cs rest : List Char} (h : foldLine? cs = some rest) :
    rest.length < cs.length := by
  unfold foldLine? at h
  split at h
  · next r hr =>
    cases h
    have h₁ := (List.dropWhile_sublist (l := r) isSpace).length_le
    have h₂ := (List.dropWhile_sublist (l := cs) isBlank).length_le
    rw [hr, List.length_cons] at h₂
    omega
  · cases h

/-- The text of a basic string over several lines. -/
def longBasicText? (cs : List Char) : Option (List Char × List Char) :=
  match cs with
  | [] => none
  | c :: rest =>
    if startsWithThree '"' (c :: rest) then some (closing '"' (rest.drop 2))
    else if c = '\\' then
      match h : foldLine? rest with
      | some rest' =>
        have := length_of_foldLine? h
        longBasicText? rest'
      | none =>
        match h : escape? rest with
        | none => none
        | some (x, rest') =>
          have := length_of_escape? h
          consText x (longBasicText? rest')
    else if isPlain c ∨ c = '\n' then consText c (longBasicText? rest)
    else none
termination_by cs.length
decreasing_by
  · simp only [List.length_cons]
    omega
  · simp only [List.length_cons]
    omega
  · simp

/-- The text of a literal string over several lines. -/
def longLiteralText? : List Char → Option (List Char × List Char)
  | [] => none
  | c :: rest =>
    if startsWithThree '\'' (c :: rest) then some (closing '\'' (rest.drop 2))
    else if isPlain c ∨ c = '\n' then consText c (longLiteralText? rest)
    else none

/-- Drops a line break at the start. -/
def dropBreak : List Char → List Char
  | '\n' :: rest => rest
  | cs => cs

/-- A string in any form, if one starts here. -/
def quoted? (cs : List Char) : Option (List Char × List Char) :=
  if startsWithThree '"' cs then longBasicText? (dropBreak (cs.drop 3))
  else if startsWithThree '\'' cs then longLiteralText? (dropBreak (cs.drop 3))
  else
    match cs with
    | '"' :: rest => basicText? rest
    | '\'' :: rest => literalText? rest
    | _ => none

/-! ### Writing -/

/-- The length of the longest run of a character, when `run` of them stand right before. -/
def longestRun (c : Char) (run : Nat) : List Char → Nat
  | [] => run
  | x :: rest => if x = c then longestRun c (run + 1) rest else max run (longestRun c 0 rest)

/-- Whether a character can only be shown by an escape; a line break can be shown otherwise. -/
def needsEscape (c : Char) : Bool := !isPlain c && c ≠ '\n'

/-- The forms of a string. -/
inductive QuoteForm
  | basic
  | literal
  | longBasic
  | longLiteral
  deriving DecidableEq, Repr

/-- The form in which a text is written. -/
def QuoteForm.choose (cs : List Char) : QuoteForm :=
  let escapes := cs.any needsEscape
  let backslash := cs.contains '\\'
  let breaks := cs.contains '\n'
  let singles := longestRun '\'' 0 cs
  let doubles := longestRun '"' 0 cs
  if !escapes && !backslash && doubles = 0 && !breaks then .basic
  else if !escapes && singles = 0 && !breaks then .literal
  else if !escapes && !backslash && doubles ≤ 2 then .longBasic
  else if !escapes && singles ≤ 2 then .longLiteral
  else if breaks then .longBasic
  else .basic

/-- A character in a basic string, other than a quote; `long` says that line breaks stand for
themselves. -/
def escapeBasic (long : Bool) (c : Char) : List Char :=
  if c = '\x08' then ['\\', 'b']
  else if c = '\t' then ['\\', 't']
  else if c = '\n' then if long then ['\n'] else ['\\', 'n']
  else if c = '\x0c' then ['\\', 'f']
  else if c = '\r' then ['\\', 'r']
  else if c = '\\' then ['\\', '\\']
  else if isPlain c then [c]
  else '\\' :: 'u' :: Text.fixedHexDigits .upper 4 c.toNat

/-- The inside of a basic string in which at most `allowed` quotes may stand in a row; `run`
of them stand right before. -/
def writeBasic (long : Bool) (allowed run : Nat) : List Char → List Char
  | [] => []
  | c :: rest =>
    if c = '"' then
      if run < allowed then '"' :: writeBasic long allowed (run + 1) rest
      else '\\' :: '"' :: writeBasic long allowed 0 rest
    else escapeBasic long c ++ writeBasic long allowed 0 rest

/-- A text in a given form. -/
def QuoteForm.write (form : QuoteForm) (cs : List Char) : List Char :=
  let opening := if cs.contains '\n' then ['\n'] else []
  match form with
  | .basic => '"' :: writeBasic false 0 0 cs ++ ['"']
  | .literal => '\'' :: cs ++ ['\'']
  | .longBasic => '"' :: '"' :: '"' :: opening ++ writeBasic true 2 0 cs ++ ['"', '"', '"']
  | .longLiteral => '\'' :: '\'' :: '\'' :: opening ++ cs ++ ['\'', '\'', '\'']

/-- A text in the form that suits it. -/
def quote (s : String) : String := String.ofList ((QuoteForm.choose s.toList).write s.toList)

end VmProbe.Toml
