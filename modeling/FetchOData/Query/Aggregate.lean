namespace FetchOData.Query

inductive Aggregate where
  | count
  | countColumn
  | sum
  | avg
  | min
  | max
deriving DecidableEq, Repr

namespace Aggregate

def token : Aggregate → String
  | count => "count"
  | countColumn => "countcolumn"
  | sum => "sum"
  | avg => "avg"
  | min => "min"
  | max => "max"

def all : List Aggregate :=
  [.count, .countColumn, .sum, .avg, .min, .max]

/-- Counting the values of a column has a second token. -/
def ofToken? (s : String) : Option Aggregate :=
  if s = "countdistinct" then some countColumn else all.find? fun a => a.token = s

theorem ofToken?_token (a : Aggregate) : ofToken? a.token = some a := by
  cases a <;> decide

end Aggregate

end FetchOData.Query
