import FetchOData.Number.Integer

namespace FetchOData.Number

/-- A decimal fraction `mantissa / 10 ^ scale`. The scale is part of the value: `1.5` and `1.50`
are different decimals. -/
structure Decimal where
  negative : Bool
  mantissa : Nat
  scale : Nat
deriving DecidableEq, Repr

inductive DecimalFault where
  | empty
  | noDigits
  | twoPoints
  | leadingSeparator
  | unknownCharacter
  | tooManyDigits
  | roundingOverflow
  | malformedExponent
  | scaleTooLarge (scale : Nat)
  | tooLarge
deriving DecidableEq, Repr

namespace Decimal

/-- Mantissas have 96 bits. -/
def limit : Nat := 79228162514264337593543950336

def maxScale : Nat := 28

/-- Mantissas below this can take one more digit and stay within 64 bits, with a margin of 255. -/
def shortLimit : Nat := 1844674407370954906

end Decimal

def DecimalFault.message : DecimalFault → String
  | empty => "Invalid decimal: empty"
  | noDigits => "Invalid decimal: no digits found"
  | twoPoints => "Invalid decimal: two decimal points"
  | leadingSeparator => "Invalid decimal: must start lead with a number"
  | unknownCharacter => "Invalid decimal: unknown character"
  | tooManyDigits => "Invalid decimal: overflow from too many digits"
  | roundingOverflow => "Invalid decimal: overflow from mantissa after rounding"
  | malformedExponent => "Failed to parse"
  | scaleTooLarge scale =>
    "Scale exceeds the maximum precision allowed: " ++ integerText scale ++ " > " ++
      integerText Decimal.maxScale
  | tooLarge => "Number exceeds maximum value that can be represented."

namespace Decimal

/-- What has been read so far. -/
structure Reading where
  mantissa : Nat := 0
  scale : Nat := 0
  point : Bool := false
  digit : Bool := false

/-- Zero has no sign. -/
def signed (negative : Bool) (mantissa scale : Nat) : Decimal :=
  ⟨negative && mantissa != 0, mantissa, scale⟩

/-- The first digit that does not fit rounds the mantissa. A mantissa that this takes to the limit
gives up its own last digit. -/
def roundBy (d mantissa scale : Nat) : Except DecimalFault (Nat × Nat) :=
  if d < 5 then .ok (mantissa, scale)
  else if mantissa + 1 < limit then .ok (mantissa + 1, scale)
  else if scale = 0 then .error .roundingOverflow
  else .ok ((mantissa + 5) / 10, scale - 1)

/-- What follows the end of the mantissa has no effect on the value but must be well formed. -/
def checkRest : List Char → Except DecimalFault Unit
  | [] => .ok ()
  | c :: cs =>
    if c.isDigit || c == '_' then checkRest cs
    else if c = '.' then .error .twoPoints
    else .error .unknownCharacter

/-- A separator behind the last place ends a mantissa that was short up to its last digit, and the
digits that follow do not round it. Every other separator is passed over. -/
def Reading.endsAtSeparator (r : Reading) : Bool :=
  r.scale == maxScale && r.mantissa / 10 < shortLimit

def read (negative : Bool) (r : Reading) : List Char → Except DecimalFault Decimal
  | [] => if r.digit then .ok (signed negative r.mantissa r.scale) else .error .noDigits
  | c :: cs =>
    match digit? c with
    | some d =>
      let next := 10 * r.mantissa + d
      if !r.point && limit ≤ next then .error .tooManyDigits
      else if r.point && (limit ≤ next || r.scale == maxScale) then do
        let (mantissa, scale) ← roundBy d r.mantissa r.scale
        checkRest cs
        return signed negative mantissa scale
      else
        read negative { r with mantissa := next, scale := if r.point then r.scale + 1 else 0,
                               digit := true } cs
    | none =>
      if c = '.' then
        if r.point then .error .twoPoints else read negative { r with point := true } cs
      else if c = '_' then
        if !r.digit then .error .leadingSeparator
        else if r.endsAtSeparator then do
          checkRest cs
          return signed negative r.mantissa r.scale
        else read negative r cs
      else .error .unknownCharacter

/-- A decimal in plain notation. -/
def plain : List Char → Except DecimalFault Decimal
  | [] => .error .empty
  | '-' :: cs => read true {} cs
  | '+' :: cs => read false {} cs
  | cs => read false {} cs

/-- The quotient by `10 ^ places`, a half going away from zero. -/
def shorten (mantissa places : Nat) : Nat :=
  (2 * mantissa + Nat.pow 10 places) / (2 * Nat.pow 10 places)

/-- Divides by `10 ^ n`. The scale grows by `n`; what it cannot take is rounded off. -/
def shiftDown (n : Nat) (x : Decimal) : Except DecimalFault Decimal :=
  if maxScale < n then .error (.scaleTooLarge n)
  else if x.scale + n ≤ maxScale then .ok { x with scale := x.scale + n }
  else .ok { x with mantissa := shorten x.mantissa (x.scale + n - maxScale), scale := maxScale }

/-- Multiplies by `10 ^ n`. The scale falls by `n`; a larger `n` makes a whole number. -/
def shiftUp (n : Nat) (x : Decimal) : Except DecimalFault Decimal :=
  if n ≤ x.scale then .ok { x with scale := x.scale - n }
  else if maxScale < n then .error (.scaleTooLarge n)
  else
    let mantissa := x.mantissa * Nat.pow 10 (n - x.scale)
    if limit ≤ mantissa then .error .tooLarge else .ok { x with mantissa, scale := 0 }

def exponent (cs : List Char) : Except DecimalFault Nat :=
  (natural 4294967295 cs).mapError fun _ => .malformedExponent

/-- A decimal in scientific notation, split at its exponent mark. -/
def scientific (base power : List Char) : Except DecimalFault Decimal := do
  let x ← plain base
  match power with
  | '-' :: cs => shiftDown (← exponent cs) x
  | cs => shiftUp (← exponent cs) x

def isExponentMark (c : Char) : Bool :=
  c == 'e' || c == 'E'

/-- Plain notation is tried first, so its fault is the one reported when there is no exponent. -/
def ofChars (cs : List Char) : Except DecimalFault Decimal :=
  match plain cs with
  | .ok x => .ok x
  | .error fault =>
    match cs.dropWhile (!isExponentMark ·) with
    | [] => .error fault
    | _ :: power => scientific (cs.takeWhile (!isExponentMark ·)) power

def text (x : Decimal) : String :=
  let unsigned := positional (digits x.mantissa) x.scale
  String.ofList (if x.negative then '-' :: unsigned else unsigned)

end Decimal

end FetchOData.Number
