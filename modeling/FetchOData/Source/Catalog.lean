import Std.Data.TreeMap
import FetchOData.Source.Basic
import FetchOData.Schema.Codec
import FetchOData.Json.Reader

namespace FetchOData

/-- Schema records held in memory, one for each entity name. -/
structure Catalog where
  entities : Std.TreeMap String Schema.Entity := {}
  connected : Bool := true

namespace Catalog

/-- A record takes the place of an earlier one of the same name. -/
def insert (c : Catalog) (e : Schema.Entity) : Catalog :=
  { c with entities := c.entities.insert e.name e }

def ofList (es : List Schema.Entity) : Catalog :=
  es.foldl insert {}

def size (c : Catalog) : Nat :=
  c.entities.size

def isEmpty (c : Catalog) : Bool :=
  c.entities.isEmpty

/-- The records in the order of their names. -/
def records (c : Catalog) : List Schema.Entity :=
  c.entities.toList.map Prod.snd

def entity (c : Catalog) (name : String) : Found :=
  match c.entities[name]? with
  | some e => .ok e
  | none => .error (.entityNotFound name)

def typeCode (c : Catalog) (code : Int32) : Found :=
  match c.records.find? fun e => e.typeCode == some code with
  | some e => .ok e
  | none => .error (.typeCodeNotFound code)

def ofJson (j : Json) : Except SchemaFault Catalog :=
  match Schema.Entity.listOfDefinitions j with
  | .ok es => .ok (ofList es)
  | .error _ => .error (.load .wrongShape)

/-- The catalog of a definition list in JSON. The shape of the first value counts before anything
that follows it. -/
def load (text : String) : Except SchemaFault Catalog :=
  match Json.leading? text with
  | none => .error (.load .notJson)
  | some (j, rest) => do
    let c ← ofJson j
    if Json.isBlank rest then return c else throw (.load .notJson)

/-- Lookups leave a catalog as it is. -/
def source : Source Catalog where
  connected := Catalog.connected
  entity name c := (c.entity name, c)
  typeCode code c := (c.typeCode code, c)

end Catalog

end FetchOData
