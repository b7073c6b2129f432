import FetchOData.Connective
import FetchOData.Query.Operator
import FetchOData.Query.LinkKind
import FetchOData.Query.Aggregate

namespace FetchOData.Query

/-- A column that a query asks for. -/
structure Column where
  name : String
  aliasName : Option String := none
  groupBy : Bool := false
  aggregate : Option Aggregate := none
deriving DecidableEq, Repr

structure Order where
  column : String
  descending : Bool := false
  aliasName : Option String := none
deriving DecidableEq, Repr

structure Condition where
  column : String
  operator : Operator
  value : Option String := none
  values : List String := []
  /-- The link whose entity the condition is about, where that is not the entity it stands on. -/
  entityName : Option String := none
  /-- The column to compare with, in place of a value. -/
  valueOf : Option String := none
deriving DecidableEq, Repr

/-- What a query takes from an entity. -/
structure Selection where
  columns : List Column := []
  allColumns : Bool := false
  orders : List Order := []
deriving DecidableEq, Repr

/-- How a link is joined: its column `fromColumn` equals the parent's column `toColumn`. -/
structure Join where
  entity : String
  fromColumn : String
  toColumn : String
  kind : LinkKind := .inner
  aliasName : Option String := none
deriving DecidableEq, Repr

mutual
/-- Conditions, further filters and links, combined by a connective. -/
structure Filter where
  connective : Connective := .and
  conditions : List Condition := []
  filters : List Filter := []
  links : List Link := []
/-- A joined entity. -/
structure Link where
  join : Join
  selection : Selection := {}
  filters : List Filter := []
  links : List Link := []
end

/-- The entity that a query starts from. -/
structure Entity where
  name : String
  selection : Selection := {}
  filters : List Filter := []
  links : List Link := []

structure Fetch where
  top : Option UInt32 := none
  count : Option UInt32 := none
  page : Option UInt32 := none
  aggregate : Bool := false
  datasource : Option String := none
  entity : Option Entity := none

namespace Filter

/-- A filter with nothing in it. One that holds only filters with nothing in them does hold
something. -/
def isEmpty (f : Filter) : Bool :=
  f.conditions.isEmpty && f.filters.isEmpty && f.links.isEmpty

end Filter

namespace Selection

def isEmpty (s : Selection) : Bool :=
  s.columns.isEmpty && !s.allColumns && s.orders.isEmpty

end Selection

namespace Link

def name (l : Link) : String :=
  l.join.entity

/-- Whether a link brings more than the join itself. -/
def hasContent (l : Link) : Bool :=
  !l.selection.isEmpty || !l.filters.isEmpty || !l.links.isEmpty

/-- A link is called by its alias, and by its entity if it has none. -/
def isReferencedBy (l : Link) (name : String) : Bool :=
  l.join.aliasName.getD l.join.entity == name

end Link

end FetchOData.Query
