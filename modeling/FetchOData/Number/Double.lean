import FetchOData.Number.Shortest

namespace FetchOData.Number

inductive DoubleFault where
  | empty
  | malformed
  | notFinite
deriving DecidableEq, Repr

def DoubleFault.message : DoubleFault → String
  | empty => "cannot parse float from empty string"
  | malformed => "invalid float literal"
  | notFinite => "not a finite number"

/-- A finite double with its sign; zero has one too. -/
structure Double where
  negative : Bool
  magnitude : Binary64
deriving DecidableEq, Repr

namespace Double

/-- The words for what is not a finite number, in lower case. -/
def nonFinite : List (List Char) :=
  ["inf".toList, "infinity".toList, "nan".toList]

/-- An exponent: a sign or none, then at least one digit and nothing else. -/
def exponent? (cs : List Char) : Option Int :=
  let power (ds : List Char) : Option Int :=
    if ds.isEmpty || !ds.all Char.isDigit then none else some (ofDigits ds)
  match cs with
  | '-' :: ds => (power ds).map (- ·)
  | '+' :: ds => power ds
  | ds => power ds

/-- A numeral without sign, as a coefficient and a power of ten. -/
def numeral? (cs : List Char) : Option Scaled := do
  let whole := cs.takeWhile Char.isDigit
  let (fraction, rest) := match cs.dropWhile Char.isDigit with
    | '.' :: rest => (rest.takeWhile Char.isDigit, rest.dropWhile Char.isDigit)
    | rest => ([], rest)
  if whole.isEmpty && fraction.isEmpty then none
  let power ← match rest with
    | [] => some 0
    | c :: rest => if c == 'e' || c == 'E' then exponent? rest else none
  return ⟨ofDigits (whole ++ fraction), power - fraction.length⟩

def unsigned (negative : Bool) (cs : List Char) : Except DoubleFault Double :=
  if nonFinite.contains (cs.map Char.toLower) then .error .notFinite
  else
    match numeral? cs with
    | none => .error .malformed
    | some s =>
      match Binary64.ofDecimal s.coefficient s.power with
      | none => .error .notFinite
      | some x => .ok ⟨negative, x⟩

def ofChars : List Char → Except DoubleFault Double
  | [] => .error .empty
  | '-' :: cs => unsigned true cs
  | '+' :: cs => unsigned false cs
  | cs => unsigned false cs

def text (x : Double) : String :=
  let unsigned := x.magnitude.shortest.positionalText
  String.ofList (if x.negative then '-' :: unsigned else unsigned)

end Double

end FetchOData.Number
