import FetchOData.Text.Form
import FetchOData.Text.Blank
import FetchOData.Number.Double
import FetchOData.Number.Decimal
import FetchOData.Guid
import FetchOData.Time.Moment

namespace FetchOData

/-- The types of literals in a request. -/
inductive LiteralKind where
  | string
  | dateTime
  | boolean
  | guid
  | integer
  | bigInt
  | decimal
  | double
deriving DecidableEq, Repr

def LiteralKind.name : LiteralKind → String
  | string => "string"
  | dateTime => "datetime"
  | boolean => "boolean"
  | guid => "guid"
  | integer => "integer"
  | bigInt => "bigint"
  | decimal => "decimal"
  | double => "double"

/-- Why a text is not a literal of the wanted type. -/
inductive LiteralFault where
  | dateTime
  | guid (fault : GuidFault)
  | integer (fault : Number.IntegerFault)
  | decimal (fault : Number.DecimalFault)
  | double (fault : Number.DoubleFault)
deriving DecidableEq, Repr

def LiteralFault.message : LiteralFault → String
  | dateTime => "unrecognized date format"
  | guid fault => fault.message
  | integer fault => fault.message
  | decimal fault => fault.message
  | double fault => fault.message

namespace Literal
open Text

def integer (bound : Nat) (value : String) : Except LiteralFault String :=
  match Number.integer bound (trim value.toList) with
  | .ok n => .ok (encode (Number.integerText n))
  | .error fault => .error (.integer fault)

def decimal (value : String) : Except LiteralFault String :=
  match Number.Decimal.ofChars (trim value.toList) with
  | .ok x => .ok (encode x.text)
  | .error fault => .error (.decimal fault)

def double (value : String) : Except LiteralFault String :=
  match Number.Double.ofChars (trim value.toList) with
  | .ok x => .ok (encode x.text)
  | .error fault => .error (.double fault)

def guid (value : String) : Except LiteralFault String :=
  match Guid.ofChars (trim value.toList) with
  | .ok g => .ok g.text
  | .error fault => .error (.guid fault)

def dateTime (value : String) : Except LiteralFault String :=
  match Time.Moment.ofChars? (trim value.toList) with
  | some m => .ok m.text
  | none => .error .dateTime

/-- One is true and every other text is false. -/
def boolean (value : String) : String :=
  if value = "1" then "true" else "false"

/-- The spelling of a value as a literal of the given type. -/
def format (kind : LiteralKind) (value : String) : Except LiteralFault String :=
  match kind with
  | .string => .ok (quoted value)
  | .dateTime => dateTime value
  | .boolean => .ok (boolean value)
  | .guid => guid value
  | .integer => integer Number.bound32 value
  | .bigInt => integer Number.bound64 value
  | .decimal => decimal value
  | .double => double value

end Literal

end FetchOData
