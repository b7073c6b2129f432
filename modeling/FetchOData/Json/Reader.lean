import FetchOData.Json.Token

namespace FetchOData.Json

/-- A container that is being read, its members so far in reverse. -/
inductive Frame where
  | arr (items : List Json)
  | obj (fields : List (String × Json))
  | field (key : String) (fields : List (String × Json))

/-- What the next lexeme may be. -/
inductive Expect where
  | value
  | firstItem
  | firstField
  | field
  | colon
  | separator
  | nothing
deriving DecidableEq

structure Reading where
  expect : Expect := .value
  stack : List Frame := []
  result : Option Json := none

namespace Reading

/-- Containers may be nested this deep. -/
def maxDepth : Nat := 127

/-- A finished value goes into the container around it. -/
def put (stack : List Frame) (value : Json) : Option Reading :=
  match stack with
  | [] => some { expect := .nothing, result := some value }
  | .arr items :: rest => some { expect := .separator, stack := .arr (value :: items) :: rest }
  | .field key fields :: rest =>
    some { expect := .separator, stack := .obj ((key, value) :: fields) :: rest }
  | .obj _ :: _ => none

def opens (r : Reading) (frame : Frame) (expect : Expect) : Option Reading :=
  if r.stack.length < maxDepth then some { expect, stack := frame :: r.stack } else none

def step (r : Reading) (token : Token) : Option Reading :=
  match r.expect, token, r.stack with
  | .value, .openArray, _ | .firstItem, .openArray, _ => r.opens (.arr []) .firstItem
  | .value, .openObject, _ | .firstItem, .openObject, _ => r.opens (.obj []) .firstField
  | .value, .scalar v, stack | .firstItem, .scalar v, stack => put stack v
  | .firstItem, .closeArray, .arr items :: rest | .separator, .closeArray, .arr items :: rest =>
    put rest (.arr items.reverse)
  | .firstField, .closeObject, .obj fields :: rest
  | .separator, .closeObject, .obj fields :: rest => put rest (.obj fields.reverse)
  | .firstField, .scalar (.str key), .obj fields :: rest
  | .field, .scalar (.str key), .obj fields :: rest =>
    some { expect := .colon, stack := .field key fields :: rest }
  | .colon, .colon, stack => some { expect := .value, stack }
  | .separator, .comma, .arr items :: rest =>
    some { expect := .value, stack := .arr items :: rest }
  | .separator, .comma, .obj fields :: rest =>
    some { expect := .field, stack := .obj fields :: rest }
  | _, _, _ => none

/-- Reads on until a value is complete, and leaves what follows it. -/
def run (r : Reading) (cs : List Char) : Option (Json × List Char) :=
  match r.result with
  | some value => some (value, cs)
  | none =>
    match h : Token.next? cs with
    | none => none
    | some (token, rest) =>
      have := Token.next?_length h
      match r.step token with
      | none => none
      | some r => r.run rest
termination_by cs.length

end Reading

/-- The value that a text begins with, and what follows it. -/
def leading? (text : String) : Option (Json × List Char) :=
  Reading.run {} text.toList

def isBlank (cs : List Char) : Bool :=
  (Token.dropSpace cs).isEmpty

/-- The value that a text denotes, or none when it is not JSON. -/
def parse? (text : String) : Option Json :=
  match leading? text with
  | some (value, rest) => if isBlank rest then some value else none
  | none => none

end FetchOData.Json
