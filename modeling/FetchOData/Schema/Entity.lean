import FetchOData.Schema.Attribute
import FetchOData.Schema.Relationship
import FetchOData.Fault

namespace FetchOData.Schema

/-- What is known of an entity. -/
structure Entity where
  name : String
  setName : Option String := none
  collectionName : Option String := none
  primaryKey : String
  typeCode : Option Int32 := none
  attributes : List Attribute := []
  oneToMany : List Reference := []
  manyToOne : List Reference := []
  manyToMany : List Association := []
deriving DecidableEq, Repr

namespace Entity

/-- The name of the entity's collection in a request. -/
def collection (e : Entity) : Except SchemaFault String :=
  match e.setName <|> e.collectionName with
  | some name => .ok name
  | none => .error (.missingCollectionName e.name)

def findAttribute? (e : Entity) (name : String) : Option Attribute :=
  e.attributes.find? fun a => a.name == name

def withTypeCode (e : Entity) (code : Int32) : Entity :=
  { e with typeCode := some code }

def addAttribute (e : Entity) (a : Attribute) : Entity :=
  { e with attributes := e.attributes ++ [a] }

def addOneToMany (e : Entity) (r : Reference) : Entity :=
  { e with oneToMany := e.oneToMany ++ [r] }

def addManyToOne (e : Entity) (r : Reference) : Entity :=
  { e with manyToOne := e.manyToOne ++ [r] }

def addManyToMany (e : Entity) (a : Association) : Entity :=
  { e with manyToMany := e.manyToMany ++ [a] }

end Entity

end FetchOData.Schema
