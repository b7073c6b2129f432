import FetchOData.Text.Form

namespace FetchOData.Compile

/-- A pattern that is a text with anything before it, after it, or neither. -/
structure Pattern where
  text : List Char
  leading : Bool
  trailing : Bool
deriving DecidableEq, Repr

namespace Pattern

def isSpecial (c : Char) : Bool :=
  c == '%' || c == '_' || c == '[' || c == ']'

/-- The text that a pattern without wildcards stands for. A special character other than the
closing bracket stands for itself between brackets. -/
def plainText? : List Char → Option (List Char)
  | [] => some []
  | '[' :: c :: ']' :: cs =>
    if c == '%' || c == '_' || c == '[' then (c :: ·) <$> plainText? cs else none
  | c :: cs => if isSpecial c then none else (c :: ·) <$> plainText? cs

/-- Takes off a percent sign in front. -/
def splitLeading : List Char → Bool × List Char
  | '%' :: cs => (true, cs)
  | cs => (false, cs)

/-- Takes off a percent sign at the end. -/
def splitTrailing (cs : List Char) : Bool × List Char :=
  if cs.getLast? = some '%' then (true, cs.dropLast) else (false, cs)

/-- None when there are wildcards other than a percent sign at either end. -/
def ofChars? (cs : List Char) : Option Pattern := do
  let (leading, cs) := splitLeading cs
  let (trailing, cs) := splitTrailing cs
  return { text := ← plainText? cs, leading, trailing }

end Pattern

end FetchOData.Compile
