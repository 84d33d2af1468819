/-
VmProbe/Floating/Format.lean

Binary floating-point numbers from their bit patterns.  A pattern stands for a sign and a
magnitude `m * 2 ^ q`, for an infinity, or for no number at all (`Number.ofBits`).  Two
numbers are the same when they have the same value: the two zeros are, and a pattern that is
no number equals nothing, itself included.

`roundTo p n` is the natural number nearest to `n` with at most `p` significant bits, a half
going to the even neighbour; it says which number an integer becomes when it is stored as a
float of that precision.
-/
namespace VmProbe.Floating

/-- The layout of a binary format: how many bits hold the fraction and the exponent. -/
structure Format where
  fractionBits : Nat
  exponentBits : Nat
  deriving DecidableEq, Repr

/-- Single precision. -/
def binary32 : Format := ⟨23, 8⟩

/-- Double precision. -/
def binary64 : Format := ⟨52, 11⟩

namespace Format

/-- The sign bit of a pattern. -/
def signOf (f : Format) (bits : Nat) : Bool := bits.testBit (f.fractionBits + f.exponentBits)

/-- The exponent field of a pattern. -/
def exponentOf (f : Format) (bits : Nat) : Nat :=
  (bits >>> f.fractionBits) % (1 <<< f.exponentBits)

/-- The fraction field of a pattern. -/
def fractionOf (f : Format) (bits : Nat) : Nat := bits % (1 <<< f.fractionBits)

/-- What is subtracted from an exponent field, for a whole-number significand. -/
def bias (f : Format) : Nat := (1 <<< (f.exponentBits - 1)) - 1 + f.fractionBits

end Format

/-- What a bit pattern stands for; a finite number is `magnitude * 2 ^ exponent`, signed. -/
inductive Number
  | nan
  | infinite (negative : Bool)
  | finite (negative : Bool) (magnitude : Nat) (exponent : Int)
  deriving DecidableEq, Repr

namespace Number

/-- The number that a bit pattern stands for. -/
def ofBits (f : Format) (bits : Nat) : Number :=
  let negative := f.signOf bits
  let field := f.exponentOf bits
  let fraction := f.fractionOf bits
  if field = (1 <<< f.exponentBits) - 1 then
    if fraction = 0 then infinite negative else nan
  else if field = 0 then finite negative fraction (1 - (f.bias : Int))
  else finite negative ((1 <<< f.fractionBits) + fraction) ((field : Int) - f.bias)

/-- A whole number. -/
def ofInt (n : Int) : Number := finite (decide (n < 0)) n.natAbs 0

/-- A magnitude with its sign. -/
def signed (negative : Bool) (magnitude : Nat) : Int :=
  if negative then -(magnitude : Int) else magnitude

/-- Whether two patterns have the same value. -/
def same : Number → Number → Bool
  | infinite s, infinite t => s = t
  | finite s m q, finite t n r =>
    let low := min q r
    signed s (m <<< (q - low).toNat) = signed t (n <<< (r - low).toNat)
  | _, _ => false

end Number

/-- The nearest natural number with at most `p` significant bits, a half to even. -/
def roundTo (p n : Nat) : Nat :=
  if n < 1 <<< p then n
  else
    let step := 1 <<< (n.log2 + 1 - p)
    let kept := n / step
    let rest := n % step
    let up := step < 2 * rest ∨ (2 * rest = step ∧ kept % 2 = 1)
    (if up then kept + 1 else kept) * step

/-- The double nearest to a whole number, as a whole number. -/
def roundInt (n : Int) : Int := Number.signed (decide (n < 0)) (roundTo 53 n.natAbs)

end VmProbe.Floating
