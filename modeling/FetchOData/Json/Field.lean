import FetchOData.Json.Basic
import FetchOData.Fault

namespace FetchOData.Json

/-- Why a value is not the model that is wanted. -/
inductive DecodeFault where
  | shape
  | unsupported (cause : Unsupported)
deriving DecidableEq, Repr

abbrev Decoded (α : Type) := Except DecodeFault α

/-- The fields of an object. Those that nobody asks for are ignored. -/
def fields : Json → Decoded (List (String × Json))
  | .obj fs => .ok fs
  | _ => .error .shape

def string : Json → Decoded String
  | .str s => .ok s
  | _ => .error .shape

def boolean : Json → Decoded Bool
  | .bool b => .ok b
  | _ => .error .shape

def uint32 : Json → Decoded UInt32
  | .int n => if 0 ≤ n ∧ n < 4294967296 then .ok (UInt32.ofNat n.toNat) else .error .shape
  | _ => .error .shape

def int32 : Json → Decoded Int32
  | .int n => if -2147483648 ≤ n ∧ n < 2147483648 then .ok (Int32.ofInt n) else .error .shape
  | _ => .error .shape

def listOf (item : Json → Decoded α) : Json → Decoded (List α)
  | .arr items => items.mapM item
  | _ => .error .shape

/-- The value of a field, if the object has it. An object that has it twice is refused. -/
def field? (fs : List (String × Json)) (key : String) : Decoded (Option Json) :=
  if 1 < (fs.map Prod.fst).count key then .error .shape else .ok (get? fs key)

/-- A field that must be there. -/
def required (item : Json → Decoded α) (fs : List (String × Json)) (key : String) : Decoded α :=
  match field? fs key with
  | .ok (some value) => item value
  | .ok none => .error .shape
  | .error fault => .error fault

/-- A field that may be absent or null. -/
def optional (item : Json → Decoded α) (fs : List (String × Json)) (key : String) :
    Decoded (Option α) :=
  match field? fs key with
  | .ok none | .ok (some .null) => .ok none
  | .ok (some value) => (item value).map some
  | .error fault => .error fault

/-- A field that may be absent, but not null. -/
def orElse (item : Json → Decoded α) (default : α) (fs : List (String × Json)) (key : String) :
    Decoded α :=
  match field? fs key with
  | .ok none => .ok default
  | .ok (some value) => item value
  | .error fault => .error fault

def ofOption (item : α → Json) : Option α → Json
  | none => .null
  | some a => item a

def ofList (item : α → Json) (items : List α) : Json :=
  .arr (items.map item)

end FetchOData.Json
