namespace FetchOData

/-- How the members of a filter are combined. -/
inductive Connective where
  | and
  | or
deriving DecidableEq, Repr

namespace Connective

def flip : Connective → Connective
  | and => or
  | or => and

def word : Connective → String
  | and => "and"
  | or => "or"

def ofWord? (s : String) : Option Connective :=
  if s = "and" then some and else if s = "or" then some or else none

theorem ofWord?_word (c : Connective) : ofWord? c.word = some c := by
  cases c <;> decide

@[simp] theorem flip_flip (c : Connective) : c.flip.flip = c := by
  cases c <;> rfl

end Connective

end FetchOData
