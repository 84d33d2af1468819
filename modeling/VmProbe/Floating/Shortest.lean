/-
VmProbe/Floating/Shortest.lean

Decimal text of binary floating-point numbers.  The text has the fewest significant digits
that read back to the same number, and of those the nearest to it (the larger of two equally
near), and it is always positional: whole numbers have no point and no number has an
exponent, however long the text becomes.

A finite number `m * 2 ^ q` is the only one of its format in the interval from halfway to its
lower neighbour to halfway to its upper one; the ends belong to it when `m` is even.  On the
grid of `n` significant digits only the two points around the number can be nearest, so it is
enough to test these two for `n = 1, 2, …` and to take the first grid with a hit.
-/
import VmProbe.Floating.Format

namespace VmProbe.Floating

/-- The number `digits * 10 ^ exponent`. -/
structure Decimal where
  digits : Nat
  exponent : Int
  deriving DecidableEq, Repr

/-- A positive number and its rounding interval, as fractions over one denominator. -/
structure Interval where
  low : Nat
  value : Nat
  high : Nat
  denominator : Nat
  closed : Bool
  deriving DecidableEq, Repr

namespace Interval

/-- The interval of `m * 2 ^ q`; below a power of two the lower neighbour is half as far. -/
def around (m : Nat) (q : Int) (narrow : Bool) : Interval :=
  let scale := 1 <<< (q - 2).toNat
  { low := (4 * m - if narrow then 1 else 2) * scale
    value := 4 * m * scale
    high := (4 * m + 2) * scale
    denominator := 1 <<< (2 - q).toNat
    closed := m % 2 = 0 }

/-- The power of ten just above the number: the `p` with `10 ^ (p - 1) ≤ value < 10 ^ p`. -/
def magnitude (i : Interval) : Int :=
  if i.denominator ≤ i.value then
    ((Nat.toDigits 10 (i.value / i.denominator)).length : Int)
  else 1 - ((Nat.toDigits 10 ((i.denominator - 1) / i.value)).length : Int)

/-- Whether the fraction `n / d` rounds to the number. -/
def admits (i : Interval) (n d : Nat) : Bool :=
  if i.closed then i.low * d ≤ n * i.denominator ∧ n * i.denominator ≤ i.high * d
  else i.low * d < n * i.denominator ∧ n * i.denominator < i.high * d

/-- The nearest grid point of `10 ^ k` that rounds to the number, if one does. -/
def gridPoint? (i : Interval) (k : Int) : Option Decimal :=
  let unit := Nat.pow 10 k.toNat
  let parts := Nat.pow 10 (-k).toNat
  let below := i.value * parts / (i.denominator * unit)
  let rest := i.value * parts % (i.denominator * unit)
  let above := below + 1
  match i.admits (below * unit) parts, i.admits (above * unit) parts with
  | true, true =>
    some ⟨if 2 * rest < i.denominator * unit then below else above, k⟩
  | true, false => some ⟨below, k⟩
  | false, true => some ⟨above, k⟩
  | false, false => none

/-- The first hit on the grids of `n`, `n + 1`, … digits, over `tries` grids. -/
def search (i : Interval) (p : Int) : Nat → Nat → Decimal
  | 0, n =>
    ⟨i.value * Nat.pow 10 (n - p).toNat / (i.denominator * Nat.pow 10 (p - n).toNat), p - n⟩
  | tries + 1, n =>
    match i.gridPoint? (p - n) with
    | some d => d
    | none => search i p tries (n + 1)

/-- The shortest decimal that rounds to the number; seventeen digits are always enough. -/
def shortest (i : Interval) : Decimal := i.search i.magnitude 17 1

end Interval

namespace Decimal

/-- Drops the zeros at the end of the digits. -/
def trim (digits : Nat) (exponent : Int) : Decimal :=
  if h : digits ≠ 0 ∧ digits % 10 = 0 then trim (digits / 10) (exponent + 1)
  else ⟨digits, exponent⟩
termination_by digits
decreasing_by omega

/-- The digits with zeros or a point put in for the exponent. -/
def positional (d : Decimal) : String :=
  let t := trim d.digits d.exponent
  let digits := Nat.toDigits 10 t.digits
  let places := (-t.exponent).toNat
  String.ofList <|
    if 0 ≤ t.exponent then digits ++ List.replicate t.exponent.toNat '0'
    else if places < digits.length then
      digits.take (digits.length - places) ++ '.' :: digits.drop (digits.length - places)
    else '0' :: '.' :: List.replicate (places - digits.length) '0' ++ digits

end Decimal

namespace Format

/-- The text of a bit pattern. -/
def text (f : Format) (bits : Nat) : String :=
  match Number.ofBits f bits with
  | .nan => "NaN"
  | .infinite negative => if negative then "-inf" else "inf"
  | .finite negative m q =>
    let narrow := f.fractionOf bits = 0 ∧ 1 < f.exponentOf bits
    let magnitude := if m = 0 then "0" else (Interval.around m q narrow).shortest.positional
    if negative then "-" ++ magnitude else magnitude

end Format

end VmProbe.Floating
