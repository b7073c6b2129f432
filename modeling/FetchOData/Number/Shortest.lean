import FetchOData.Number.Binary64

namespace FetchOData.Number

/-- The number `coefficient * 10 ^ power`. -/
structure Scaled where
  coefficient : Nat
  power : Int
deriving DecidableEq, Repr

/-- The positive reals that round to one number, all over one denominator. The ends belong to the
interval when the number's mantissa is even. -/
structure Interval where
  low : Nat
  value : Nat
  high : Nat
  den : Nat
  closed : Bool

namespace Binary64

/-- The gap below a power of two is half the gap above it. -/
def interval (x : Binary64) : Interval :=
  let below := if x.mantissa = Binary64.hiddenBit && x.exponent != minExponent then 1 else 2
  let (unit, den) := scaleDown 2 (2 - x.exponent) 1 1
  { low := (4 * x.mantissa - below) * unit
    value := 4 * x.mantissa * unit
    high := (4 * x.mantissa + 2) * unit
    den
    closed := x.mantissa % 2 == 0 }

end Binary64

namespace Interval

def contains (i : Interval) (s : Scaled) : Bool :=
  let (n, d) := Binary64.scaleDown 10 (-s.power) s.coefficient 1
  let point := n * i.den
  if i.closed then i.low * d ≤ point && point ≤ i.high * d
  else i.low * d < point && point < i.high * d

/-- The greatest `k` with `10 ^ k` at most the value. -/
def log10Floor (i : Interval) : Int :=
  ((digits (i.value * Nat.pow 10 400 / i.den)).length : Int) - 401

/-- The value's neighbour in the interval among the multiples of `10 ^ power`. Of two neighbours the
nearer one is taken, and the greater one when they are equally near. -/
def nearest? (i : Interval) (power : Int) : Option Scaled :=
  let (n, d) := Binary64.scaleDown 10 power i.value i.den
  let lower : Scaled := ⟨n / d, power⟩
  let upper : Scaled := ⟨n / d + 1, power⟩
  match i.contains lower, i.contains upper with
  | false, false => none
  | true, false => some lower
  | false, true => some upper
  | true, true => some (if 2 * (n % d) < d then lower else upper)

end Interval

namespace Binary64

/-- The fewest digits that read back as the number. Seventeen always do. -/
def shortest (x : Binary64) : Scaled :=
  if x.mantissa = 0 then ⟨0, 0⟩
  else
    let i := x.interval
    let top := i.log10Floor
    ((List.range 17).findSome? fun (n : Nat) => i.nearest? (top - n)).getD ⟨0, 0⟩

end Binary64

namespace Scaled

/-- All digits written out, without an exponent and without zeros at the end of a fraction. -/
def positionalText (s : Scaled) : List Char :=
  let ds := digits s.coefficient
  let kept := (ds.reverse.dropWhile (· == '0')).reverse
  let power := s.power + ds.length - kept.length
  if kept.isEmpty then ['0']
  else if 0 ≤ power then kept ++ List.replicate power.toNat '0'
  else positional kept (-power).toNat

end Scaled

end FetchOData.Number
