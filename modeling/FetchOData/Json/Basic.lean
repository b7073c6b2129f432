namespace FetchOData

/-- A JSON value. Whole numbers are integers; a number with a fraction or an exponent is kept as it
is written, since nothing here takes one. -/
inductive Json where
  | null
  | bool (b : Bool)
  | int (n : Int)
  | real (written : String)
  | str (s : String)
  | arr (items : List Json)
  | obj (fields : List (String × Json))
deriving Inhabited

namespace Json

/-- The value of a field, if the object has it. -/
def get? (fields : List (String × Json)) (key : String) : Option Json :=
  fields.lookup key

end Json

end FetchOData
