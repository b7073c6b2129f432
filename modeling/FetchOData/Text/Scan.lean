import FetchOData.Text.Blank
import FetchOData.Number.Digit

namespace FetchOData.Text

/-- Reads the front of a text and leaves the rest, or fails. -/
abbrev Scan := StateT (List Char) Option

namespace Scan

def char (c : Char) : Scan Unit
  | [] => none
  | d :: cs => if d = c then some ((), cs) else none

def oneOf (allowed : List Char) : Scan Char
  | [] => none
  | c :: cs => if allowed.contains c then some (c, cs) else none

def blanks : Scan Unit
  | cs => some ((), dropBlanks cs)

/-- Nothing may be left. -/
def finish : Scan Unit
  | [] => some ((), [])
  | _ => none

/-- Digits, at least one and all that follow on each other. -/
def digits : Scan (List Char)
  | cs =>
    let ds := cs.takeWhile Char.isDigit
    if ds.isEmpty then none else some (ds, cs.drop ds.length)

/-- A number of at most `width` digits and at least one, as many as there are. -/
def upTo (width : Nat) : Scan Nat
  | cs =>
    let ds := (cs.take width).takeWhile Char.isDigit
    if ds.isEmpty then none else some (Number.ofDigits ds, cs.drop ds.length)

/-- A number of exactly `width` digits. -/
def exactly (width : Nat) : Scan Nat
  | cs =>
    let ds := cs.take width
    if ds.length = width && ds.all Char.isDigit then some (Number.ofDigits ds, cs.drop width)
    else none

/-- Whether the rest begins with a character, which is then read. -/
def skip? (c : Char) : Scan Bool
  | [] => some (false, [])
  | d :: cs => if d = c then some (true, cs) else some (false, d :: cs)

def require (condition : Bool) : Scan Unit :=
  if condition then pure () else failure

end Scan

end FetchOData.Text
