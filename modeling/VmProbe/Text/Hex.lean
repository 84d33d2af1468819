/-
VmProbe/Text/Hex.lean

Hexadecimal text, as messages and listings write it, and addresses as a person types them.

* `fixedHex` writes exactly `w` digits, most significant first, and drops what does not fit.
* `hex` writes a number with as many lower-case digits as it needs.
* `address` is the house form of a 64-bit address: `0x` and sixteen upper-case digits.
* `readAddress?` reads an address back, in hexadecimal after `0x` or `0X`, else in decimal.
-/
namespace VmProbe.Text

/-- Which letters stand for the digits ten to fifteen. -/
inductive LetterCase
  | lower
  | upper
  deriving DecidableEq, Repr

/-- The character of the hexadecimal digit `d`, for `d < 16`. -/
def hexDigit (letters : LetterCase) (d : Nat) : Char :=
  if d < 10 then Char.ofNat (48 + d)
  else match letters with
    | .lower => Char.ofNat (87 + d)
    | .upper => Char.ofNat (55 + d)

/-- The last `w` hexadecimal digits of `n`. -/
def fixedHexDigits (letters : LetterCase) : Nat → Nat → List Char
  | 0, _ => []
  | w + 1, n => fixedHexDigits letters w (n / 16) ++ [hexDigit letters (n % 16)]

/-- `0x` and exactly `w` digits. -/
def fixedHex (letters : LetterCase) (w n : Nat) : String :=
  String.ofList ('0' :: 'x' :: fixedHexDigits letters w n)

/-- `0x` and as many lower-case digits as `n` needs, at least one. -/
def hex (n : Nat) : String :=
  String.ofList ('0' :: 'x' :: Nat.toDigits 16 n)

/-- A byte in a message: `0x` and two lower-case digits. -/
def hexByte (b : UInt8) : String := fixedHex .lower 2 b.toNat

/-- An address or a bit pattern: `0x` and sixteen upper-case digits. -/
def address (n : Nat) : String := fixedHex .upper 16 n

/-- The value of a hexadecimal digit of either case. -/
def hexValue? (c : Char) : Option Nat :=
  if '0' ≤ c ∧ c ≤ '9' then some (c.toNat - 48)
  else if 'a' ≤ c ∧ c ≤ 'f' then some (c.toNat - 87)
  else if 'A' ≤ c ∧ c ≤ 'F' then some (c.toNat - 55)
  else none

/-- The value of a decimal digit. -/
def decimalValue? (c : Char) : Option Nat :=
  if '0' ≤ c ∧ c ≤ '9' then some (c.toNat - 48) else none

/-- The number that a run of digits denotes in base `base`, continuing from `acc`. -/
def readDigits? (base : Nat) (value? : Char → Option Nat) (acc : Nat) : List Char → Option Nat
  | [] => some acc
  | c :: cs => (value? c).bind fun d => readDigits? base value? (base * acc + d) cs

/-- A number below `2 ^ 64`: an optional plus sign, then one or more digits of the base. -/
def readWord? (base : Nat) (value? : Char → Option Nat) (cs : List Char) : Option UInt64 :=
  let digits := match cs with
    | '+' :: rest => rest
    | _ => cs
  match digits with
  | [] => none
  | _ :: _ => (readDigits? base value? 0 digits).bind fun n =>
      if n < UInt64.size then some (UInt64.ofNat n) else none

/-- An address as typed: hexadecimal after `0x` or `0X`, decimal otherwise. -/
def readAddress? (s : String) : Option UInt64 :=
  match s.toList with
  | '0' :: 'x' :: rest => readWord? 16 hexValue? rest
  | '0' :: 'X' :: rest => readWord? 16 hexValue? rest
  | cs => readWord? 10 decimalValue? cs

end VmProbe.Text
