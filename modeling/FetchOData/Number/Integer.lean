import FetchOData.Number.Digit

namespace FetchOData.Number

inductive IntegerFault where
  | empty
  | invalidDigit
  | tooLarge
  | tooSmall
deriving DecidableEq, Repr

def IntegerFault.message : IntegerFault → String
  | empty => "cannot parse integer from empty string"
  | invalidDigit => "invalid digit found in string"
  | tooLarge => "number too large to fit in target type"
  | tooSmall => "number too small to fit in target type"

/-- Reads digits onto `value`. Each digit is checked before the value it makes, so the fault of the
leftmost offending character is the one reported. -/
def readMagnitude (limit : Nat) (overflow : IntegerFault) (value : Nat) :
    List Char → Except IntegerFault Nat
  | [] => .ok value
  | c :: cs =>
    match digit? c with
    | none => .error .invalidDigit
    | some d =>
      if limit < 10 * value + d then .error overflow
      else readMagnitude limit overflow (10 * value + d) cs

/-- A natural number up to `limit`, with at most one plus sign in front. -/
def natural (limit : Nat) : List Char → Except IntegerFault Nat
  | [] => .error .empty
  | ['+'] => .error .invalidDigit
  | '+' :: cs => readMagnitude limit .tooLarge 0 cs
  | cs => readMagnitude limit .tooLarge 0 cs

/-- An integer from `-bound` on and below `bound`, with at most one sign in front. -/
def integer (bound : Nat) : List Char → Except IntegerFault Int
  | ['-'] => .error .invalidDigit
  | '-' :: cs => (readMagnitude bound .tooSmall 0 cs).map fun n => -(n : Int)
  | cs => (natural (bound - 1) cs).map Int.ofNat

/-- The bound of integers of 32 bits. -/
def bound32 : Nat := 2147483648

/-- The bound of integers of 64 bits. -/
def bound64 : Nat := 9223372036854775808

/-- The numeral of an integer: no plus sign and no leading zeros. -/
def integerText : Int → String
  | .ofNat n => String.ofList (digits n)
  | .negSucc n => String.ofList ('-' :: digits (n + 1))

end FetchOData.Number
