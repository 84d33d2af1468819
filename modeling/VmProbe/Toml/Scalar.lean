/-
VmProbe/Toml/Scalar.lean

Numbers, dates, times and truth values of TOML documents, each from the characters of one
complete word (`scalar?`).

Digits may be grouped by single underscores.  Decimal numbers have no leading zeros and
integers must fit into 64 bits.  A float must not be so large that it is read as infinity.
Dates must exist in the calendar, and a minute may have a leap second.
-/
import VmProbe.Text.Hex
import VmProbe.Toml.Basic

namespace VmProbe.Toml

open Text (decimalValue? hexValue?)

/-! ### Numbers -/

/-- The number that grouped digits denote, continuing from `acc`. -/
def grouped? (base : Nat) (value? : Char → Option Nat) (acc : Nat) : List Char → Option Nat
  | [] => none
  | [c] => (value? c).map fun d => base * acc + d
  | c :: '_' :: rest => (value? c).bind fun d => grouped? base value? (base * acc + d) rest
  | c :: rest => (value? c).bind fun d => grouped? base value? (base * acc + d) rest

/-- The value of an octal digit. -/
def octalValue? (c : Char) : Option Nat := (decimalValue? c).filter (· < 8)

/-- The value of a binary digit. -/
def binaryValue? (c : Char) : Option Nat := (decimalValue? c).filter (· < 2)

/-- A decimal number without leading zeros. -/
def decimal? : List Char → Option Nat
  | ['0'] => some 0
  | '0' :: _ => none
  | cs => grouped? 10 decimalValue? 0 cs

/-- A number that fits into 64 bits with a sign. -/
def fitting? (n : Int) : Option Int :=
  if Int64.minValue.toInt ≤ n ∧ n ≤ Int64.maxValue.toInt then some n else none

/-- An integer. -/
def integer? (cs : List Char) : Option Int :=
  (match cs with
    | '0' :: 'x' :: ds => (grouped? 16 hexValue? 0 ds).map fun n => (n : Int)
    | '0' :: 'o' :: ds => (grouped? 8 octalValue? 0 ds).map fun n => (n : Int)
    | '0' :: 'b' :: ds => (grouped? 2 binaryValue? 0 ds).map fun n => (n : Int)
    | '-' :: ds => (decimal? ds).map fun n => -(n : Int)
    | '+' :: ds => (decimal? ds).map fun n => (n : Int)
    | ds => (decimal? ds).map fun n => (n : Int)).bind fitting?

/-- The least number that is read as infinity: half a step above the greatest double. -/
def overflowBound : Nat := ((1 <<< 54) - 1) <<< 970

/-- Whether `m * 10 ^ e` is read as infinity; decided from its length when that is enough. -/
def overflows (m : Nat) (e : Int) : Bool :=
  let length := (Nat.toDigits 10 m).length
  if m = 0 then false
  else if (length : Int) + e > 320 then true
  else if (length : Int) + e < 300 then false
  else overflowBound * Nat.pow 10 (-e).toNat ≤ m * Nat.pow 10 e.toNat

/-- Whether a character belongs to grouped digits. -/
def isGroupChar (c : Char) : Bool := c = '_' || (decimalValue? c).isSome

/-- The exponent after the letter. -/
def exponent? : List Char → Option Int
  | '-' :: ds => (grouped? 10 decimalValue? 0 ds).map fun n => -(n : Int)
  | '+' :: ds => (grouped? 10 decimalValue? 0 ds).map fun n => (n : Int)
  | ds => (grouped? 10 decimalValue? 0 ds).map fun n => (n : Int)

/-- Digits and exponent of a float without a sign, for the value `digits * 10 ^ exponent`. -/
def unsignedFloat? (cs : List Char) : Option (Nat × Int) :=
  let whole := cs.takeWhile isGroupChar
  (decimal? whole).bind fun n =>
    match cs.dropWhile isGroupChar with
    | '.' :: rest =>
      let places := rest.takeWhile isGroupChar
      (grouped? 10 decimalValue? 0 places).bind fun _ =>
        let digits := places.filter (· ≠ '_')
        (grouped? 10 decimalValue? n digits).bind fun m =>
          match rest.dropWhile isGroupChar with
          | [] => some (m, -(digits.length : Int))
          | c :: exp =>
            if c = 'e' ∨ c = 'E' then (exponent? exp).map fun e => (m, e - (digits.length : Int))
            else none
    | c :: exp => if c = 'e' ∨ c = 'E' then (exponent? exp).map fun e => (n, e) else none
    | [] => none

/-- Whether the characters are a float that can be read. -/
def isFloat (cs : List Char) : Bool :=
  let body := match cs with
    | '+' :: rest => rest
    | '-' :: rest => rest
    | _ => cs
  body = ['i', 'n', 'f'] || body = ['n', 'a', 'n'] ||
    match unsignedFloat? body with
    | none => false
    | some (m, e) => cs.head? = some '-' || !overflows m e

/-! ### Dates and times -/

/-- A number of exactly `n` digits, and what follows it. -/
def fixedDigits? (n : Nat) (cs : List Char) : Option (Nat × List Char) :=
  if cs.length < n then none
  else (Text.readDigits? 10 decimalValue? 0 (cs.take n)).map fun d => (d, cs.drop n)

/-- A number of two digits in a range, and what follows it. -/
def twoDigits? (low high : Nat) (cs : List Char) : Option (Nat × List Char) :=
  (fixedDigits? 2 cs).filter fun x => low ≤ x.1 ∧ x.1 ≤ high

/-- What follows a given character. -/
def after? (c : Char) : List Char → Option (List Char)
  | [] => none
  | x :: rest => if x = c then some rest else none

/-- The days of a month. -/
def daysIn (year month : Nat) : Nat :=
  if month = 2 then
    if year % 4 = 0 ∧ (year % 100 ≠ 0 ∨ year % 400 = 0) then 29 else 28
  else if month = 4 ∨ month = 6 ∨ month = 9 ∨ month = 11 then 30
  else 31

/-- What follows a date. -/
def afterDate? (cs : List Char) : Option (List Char) := do
  let (year, cs) ← fixedDigits? 4 cs
  let cs ← after? '-' cs
  let (month, cs) ← twoDigits? 1 12 cs
  let cs ← after? '-' cs
  let (_, cs) ← twoDigits? 1 (daysIn year month) cs
  return cs

/-- What follows a time of day. -/
def afterTime? (cs : List Char) : Option (List Char) := do
  let (_, cs) ← twoDigits? 0 23 cs
  let cs ← after? ':' cs
  let (_, cs) ← twoDigits? 0 59 cs
  let cs ← after? ':' cs
  let (_, cs) ← twoDigits? 0 60 cs
  match cs with
  | '.' :: rest =>
    if ((rest.head?.bind decimalValue?).isSome) then
      return rest.dropWhile fun c => (decimalValue? c).isSome
    else none
  | _ => return cs

/-- Whether the characters are the offset of a time zone. -/
def isZone : List Char → Bool
  | ['Z'] => true
  | ['z'] => true
  | c :: cs =>
    (c = '+' || c = '-') &&
      ((twoDigits? 0 23 cs).bind fun x =>
        (after? ':' x.2).bind fun y =>
          (twoDigits? 0 59 y).bind fun z => if z.2 = [] then some () else none).isSome
  | [] => false

/-- Whether the characters are a date, a time or both. -/
def isDatetime (cs : List Char) : Bool :=
  match afterDate? cs with
  | some [] => true
  | some (c :: rest) =>
    (c = 'T' || c = 't' || c = ' ') &&
      match afterTime? rest with
      | some [] => true
      | some zone => isZone zone
      | none => false
  | none => afterTime? cs = some []

/-- The value of a complete word that is not a string. -/
def scalar? (cs : List Char) : Option Node :=
  if cs = ['t', 'r', 'u', 'e'] then some (.boolean true)
  else if cs = ['f', 'a', 'l', 's', 'e'] then some (.boolean false)
  else if isDatetime cs then some (.datetime (String.ofList cs))
  else if isFloat cs then some (.float (String.ofList cs))
  else (integer? cs).map .integer

/-- Whether a character belongs to a word. -/
def isWordChar (c : Char) : Bool :=
  c.isAlphanum || c = '+' || c = '-' || c = '_' || c = '.' || c = ':'

/-- The next word and what follows it; a date and a time may have one blank between them. -/
def word (cs : List Char) : List Char × List Char :=
  let first := cs.takeWhile isWordChar
  let rest := cs.dropWhile isWordChar
  match rest with
  | ' ' :: a :: b :: ':' :: _ =>
    if afterDate? first = some [] ∧ (decimalValue? a).isSome ∧ (decimalValue? b).isSome then
      let time := rest.drop 1
      (first ++ ' ' :: time.takeWhile isWordChar, time.dropWhile isWordChar)
    else (first, rest)
  | _ => (first, rest)

end VmProbe.Toml
