import FetchOData.Query.Tree

namespace FetchOData.Query

namespace Column

def withAlias (c : Column) (name : String) : Column :=
  { c with aliasName := some name }

def grouped (c : Column) : Column :=
  { c with groupBy := true }

def withAggregate (c : Column) (aggregate : Aggregate) : Column :=
  { c with aggregate := some aggregate }

end Column

namespace Order

def ascending (column : String) : Order :=
  { column }

def descend (column : String) : Order :=
  { column, descending := true }

def withAlias (o : Order) (name : String) : Order :=
  { o with aliasName := some name }

end Order

namespace Condition

def withValue (c : Condition) (value : String) : Condition :=
  { c with value := some value }

def withValues (c : Condition) (values : List String) : Condition :=
  { c with values }

def onEntity (c : Condition) (name : String) : Condition :=
  { c with entityName := some name }

def withValueOf (c : Condition) (column : String) : Condition :=
  { c with valueOf := some column }

end Condition

namespace Selection

def addColumn (s : Selection) (c : Column) : Selection :=
  { s with columns := s.columns ++ [c] }

def selectAll (s : Selection) : Selection :=
  { s with allColumns := true }

def addOrder (s : Selection) (o : Order) : Selection :=
  { s with orders := s.orders ++ [o] }

end Selection

namespace Filter

def addCondition (f : Filter) (c : Condition) : Filter :=
  { f with conditions := f.conditions ++ [c] }

def addFilter (f nested : Filter) : Filter :=
  { f with filters := f.filters ++ [nested] }

def addLink (f : Filter) (l : Link) : Filter :=
  { f with links := f.links ++ [l] }

end Filter

namespace Link

def withKind (l : Link) (kind : LinkKind) : Link :=
  { l with join := { l.join with kind } }

def withAlias (l : Link) (name : String) : Link :=
  { l with join := { l.join with aliasName := some name } }

def addColumn (l : Link) (c : Column) : Link :=
  { l with selection := l.selection.addColumn c }

def selectAll (l : Link) : Link :=
  { l with selection := l.selection.selectAll }

def addOrder (l : Link) (o : Order) : Link :=
  { l with selection := l.selection.addOrder o }

def addFilter (l : Link) (f : Filter) : Link :=
  { l with filters := l.filters ++ [f] }

def addLink (l nested : Link) : Link :=
  { l with links := l.links ++ [nested] }

end Link

namespace Entity

def addColumn (e : Entity) (c : Column) : Entity :=
  { e with selection := e.selection.addColumn c }

def selectAll (e : Entity) : Entity :=
  { e with selection := e.selection.selectAll }

def addOrder (e : Entity) (o : Order) : Entity :=
  { e with selection := e.selection.addOrder o }

def addFilter (e : Entity) (f : Filter) : Entity :=
  { e with filters := e.filters ++ [f] }

def addLink (e : Entity) (l : Link) : Entity :=
  { e with links := e.links ++ [l] }

end Entity

namespace Fetch

def ofEntity (e : Entity) : Fetch :=
  { entity := some e }

def withTop (f : Fetch) (n : UInt32) : Fetch :=
  { f with top := some n }

def withCount (f : Fetch) (n : UInt32) : Fetch :=
  { f with count := some n }

def withPage (f : Fetch) (n : UInt32) : Fetch :=
  { f with page := some n }

def aggregated (f : Fetch) : Fetch :=
  { f with aggregate := true }

def withDatasource (f : Fetch) (name : String) : Fetch :=
  { f with datasource := some name }

end Fetch

end FetchOData.Query
