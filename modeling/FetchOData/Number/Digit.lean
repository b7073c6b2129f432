namespace FetchOData.Number

/-- The value of an ASCII digit. -/
def digit? (c : Char) : Option Nat :=
  if c.isDigit then some (c.toNat - 0x30) else none

/-- The number that a list of digits spells, most significant first. -/
def ofDigits (cs : List Char) : Nat :=
  Nat.ofDigitChars 10 cs 0

def digits (n : Nat) : List Char :=
  Nat.toDigits 10 n

/-- Digits with a point before the last `scale` of them. Zeros are put in front so that a digit
stands before the point; a scale of zero writes no point. -/
def positional (ds : List Char) (scale : Nat) : List Char :=
  if scale = 0 then ds
  else
    let padded := List.replicate (scale + 1 - ds.length) '0' ++ ds
    let whole := padded.length - scale
    padded.take whole ++ '.' :: padded.drop whole

end FetchOData.Number
