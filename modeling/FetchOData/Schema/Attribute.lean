import FetchOData.Literal

namespace FetchOData.Schema

/-- The types of attributes. -/
inductive AttributeKind where
  | boolean
  | customer
  | dateTime
  | decimal
  | double
  | integer
  | lookup
  | memo
  | money
  | owner
  | partyList
  | picklist
  | state
  | status
  | string
  | uniqueidentifier
  | virtual
  | bigInt
  | managedProperty
  | entityName
  | other
deriving DecidableEq, Repr

namespace AttributeKind

def name : AttributeKind → String
  | boolean => "Boolean"
  | customer => "Customer"
  | dateTime => "DateTime"
  | decimal => "Decimal"
  | double => "Double"
  | integer => "Integer"
  | lookup => "Lookup"
  | memo => "Memo"
  | money => "Money"
  | owner => "Owner"
  | partyList => "PartyList"
  | picklist => "Picklist"
  | state => "State"
  | status => "Status"
  | string => "String"
  | uniqueidentifier => "Uniqueidentifier"
  | virtual => "Virtual"
  | bigInt => "BigInt"
  | managedProperty => "ManagedProperty"
  | entityName => "EntityName"
  | other => "Other"

def all : List AttributeKind :=
  [.boolean, .customer, .dateTime, .decimal, .double, .integer, .lookup, .memo, .money, .owner,
   .partyList, .picklist, .state, .status, .string, .uniqueidentifier, .virtual, .bigInt,
   .managedProperty, .entityName, .other]

/-- A name that is not known is some other kind. -/
def ofName (s : String) : AttributeKind :=
  (all.find? fun kind => kind.name = s).getD other

theorem ofName_name (kind : AttributeKind) : ofName kind.name = kind := by
  cases kind <;> decide

/-- The kinds that refer to a row of another entity. -/
def isLookup : AttributeKind → Bool
  | lookup | customer | owner => true
  | _ => false

/-- The literals that values of this kind are written as. -/
def literal : AttributeKind → LiteralKind
  | money | decimal => .decimal
  | bigInt => .bigInt
  | boolean => .boolean
  | double => .double
  | integer | state | status | picklist => .integer
  | uniqueidentifier | lookup | customer | owner => .guid
  | dateTime => .dateTime
  | _ => .string

end AttributeKind

structure Attribute where
  name : String
  kind : AttributeKind
  /-- The entities that a lookup may refer to. -/
  targets : List String := []
  /-- The kind of the value inside a managed property. -/
  innerKind : Option AttributeKind := none
deriving DecidableEq, Repr

namespace Attribute

def isLookup (a : Attribute) : Bool :=
  a.kind.isLookup

def isManaged (a : Attribute) : Bool :=
  a.kind == .managedProperty

/-- The kind of the values to compare with. -/
def valueKind (a : Attribute) : AttributeKind :=
  if a.isManaged then a.innerKind.getD a.kind else a.kind

/-- The property that holds the attribute. Lookups have one for the key they hold. -/
def property (a : Attribute) : String :=
  if a.isLookup then "_" ++ a.name ++ "_value" else a.name

def lookup (name : String) (targets : List String) : Attribute :=
  { name, kind := .lookup, targets }

def managed (name : String) (innerKind : AttributeKind) : Attribute :=
  { name, kind := .managedProperty, innerKind := some innerKind }

end Attribute

end FetchOData.Schema
