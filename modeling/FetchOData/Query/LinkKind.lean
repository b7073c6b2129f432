namespace FetchOData.Query

inductive Quantifier where
  | any
  | all
deriving DecidableEq, Repr

def Quantifier.word : Quantifier → String
  | any => "any"
  | all => "all"

/-- What a link asks of the rows it reaches. Inner and outer links join them; the others stand in a
filter and hold or fail as a whole. -/
inductive LinkKind where
  | inner
  | outer
  | related (quantifier : Quantifier) (negated : Bool)
deriving DecidableEq, Repr

namespace LinkKind

def token : LinkKind → String
  | inner => "inner"
  | outer => "outer"
  | related quantifier false => quantifier.word
  | related quantifier true => "not " ++ quantifier.word

def all : List LinkKind :=
  [.inner, .outer, .related .any false, .related .all false, .related .any true, .related .all true]

/-- No token at all means an inner link. -/
def ofToken? (s : String) : Option LinkKind :=
  if s = "" then some inner else all.find? fun kind => kind.token = s

def quantifier? : LinkKind → Option Quantifier
  | related quantifier _ => some quantifier
  | _ => none

def isNegated : LinkKind → Bool
  | related _ negated => negated
  | _ => false

/-- The kind that holds exactly where this one does not. A join has none. -/
def negate? : LinkKind → Option LinkKind
  | related quantifier negated => some (related quantifier !negated)
  | _ => none

theorem ofToken?_token (kind : LinkKind) : ofToken? kind.token = some kind := by
  rcases kind with _ | _ | ⟨_ | _, _ | _⟩ <;> decide

end LinkKind

end FetchOData.Query
