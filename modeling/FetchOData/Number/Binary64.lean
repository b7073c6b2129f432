import FetchOData.Number.Digit

namespace FetchOData.Number

/-- A finite non-negative number `mantissa * 2 ^ exponent` of the IEEE binary64 format. Normal
numbers have a mantissa of 53 bits, the others have the least exponent. -/
structure Binary64 where
  mantissa : Nat
  exponent : Int
deriving DecidableEq, Repr

namespace Binary64

def minExponent : Int := -1074

def maxExponent : Int := 971

/-- The leading bit of normal mantissas, `2 ^ 52`. -/
def hiddenBit : Nat := 4503599627370496

def zero : Binary64 := ⟨0, minExponent⟩

/-- The quotient rounded to a whole number, a tie going to the even one. -/
def roundEven (num den : Nat) : Nat :=
  let q := num / den
  let r := num % den
  if 2 * r < den || (2 * r == den && q % 2 == 0) then q else q + 1

/-- A fraction divided by `base ^ power`. -/
def scaleDown (base : Nat) (power : Int) (num den : Nat) : Nat × Nat :=
  if 0 ≤ power then (num, den * Nat.pow base power.toNat)
  else (num * Nat.pow base (-power).toNat, den)

/-- The greatest `k` with `2 ^ k ≤ num / den`, both positive. -/
def log2Floor (num den : Nat) : Int :=
  let k : Int := (num.log2 : Int) - den.log2
  let (n, d) := scaleDown 2 k num den
  if n < d then k - 1 else k

/-- The nearest number of the format, a tie going to the even mantissa, or none when the fraction
lies beyond the greatest one. -/
def ofFraction (num den : Nat) : Option Binary64 :=
  if num = 0 then some zero
  else
    let exponent := max minExponent (log2Floor num den - 52)
    let (n, d) := scaleDown 2 exponent num den
    let mantissa := roundEven n d
    let x : Binary64 :=
      if mantissa = 2 * hiddenBit then ⟨hiddenBit, exponent + 1⟩ else ⟨mantissa, exponent⟩
    if maxExponent < x.exponent then none else some x

/-- The nearest number to `coefficient * 10 ^ power`. Powers far outside the format are told by the
number of digits alone. -/
def ofDecimal (coefficient : Nat) (power : Int) : Option Binary64 :=
  let magnitude := power + (digits coefficient).length
  if coefficient = 0 || magnitude < -400 then some zero
  else if 400 < magnitude then none
  else
    let (num, den) := scaleDown 10 (-power) coefficient 1
    ofFraction num den

/-- The product, rounded to the nearest number. -/
def mul? (x y : Binary64) : Option Binary64 :=
  let (num, den) := scaleDown 2 (-(x.exponent + y.exponent)) (x.mantissa * y.mantissa) 1
  ofFraction num den

end Binary64

end FetchOData.Number
