import FetchOData.Compile.Join

namespace FetchOData.Compile
open Query OData

def orderings (root : Query.Entity) (record : Schema.Entity) : Except Fault (List OData.Ordering) :=
  root.selection.orders.mapM fun order =>
    match order.aliasName with
    | some link => .error (.unsupported (.orderOnLink link order.column))
    | none => do return ⟨← columnProperty root.name record order.column, order.descending⟩

/-- An aggregate over a property under the name that the result has. -/
def aggregation (aggregate : Aggregate) (property name : String) : String :=
  let reduced (method : String) := property ++ " with " ++ method ++ " as " ++ name
  match aggregate with
  | .count => "$count as " ++ name
  | .countColumn => reduced "countdistinct"
  | .sum => reduced "sum"
  | .avg => reduced "average"
  | .min => reduced "min"
  | .max => reduced "max"

/-- The groups and the aggregates of an entity's columns. -/
structure Summary where
  groups : List String := []
  aggregates : List String := []

/-- A column that is grouped by is not aggregated as well. -/
def Summary.add (s : Summary) (column : Column) (property : String) : Summary :=
  if column.groupBy then { s with groups := s.groups ++ [property] }
  else
    match column.aggregate with
    | some aggregate =>
      let text := aggregation aggregate property (column.aliasName.getD column.name)
      { s with aggregates := s.aggregates ++ [text] }
    | none => s

def summary (root : Query.Entity) (record : Schema.Entity) : Except Fault Summary := do
  let s ← root.selection.columns.foldlM (fun s column => do
    return s.add column (← columnProperty root.name record column.name)) {}
  if s.groups.isEmpty && s.aggregates.isEmpty then
    throw (.unsupported (.emptyAggregate root.name))
  return s

/-- What a request returns: a summary, or rows in an order and up to a number. -/
def outline (fetch : Fetch) (root : Query.Entity) (record : Schema.Entity) (collection : String) :
    Compile Request := do
  if fetch.aggregate then
    let s ← ofExcept id (summary root record)
    return { target := { property := collection }, groups := s.groups, aggregates := s.aggregates }
  else
    let selected ← select root.name root.selection
    let orderBy ← ofExcept id (orderings root record)
    return { target := { property := collection, select := selected }, orderBy, top := fetch.top }

def rootRequest (fetch : Fetch) (root : Query.Entity) : Compile Request := do
  let record ← entity root.name
  let collection ← ofExcept .schema record.collection
  let request ← outline fetch root record collection
  let filter ← filterGroups root ⟨root.name, []⟩ root.filters
  let expand ← expands root root.name root.links
  let joins ← innerJoins root root.name [] root.links
  return { request with target := { request.target with expand, filter := filter ++ joins } }

/-- Only live data has a request, and only the first page. -/
def admissible (fetch : Fetch) : Except Fault Query.Entity := do
  if let some name := fetch.datasource then
    if name ≠ "" ∧ name ≠ "live" then throw (.unsupported (.dataSource name))
  if let some page := fetch.page then
    if page ≠ 1 then throw (.unsupported (.paging page))
  match fetch.entity with
  | some root => return root
  | none => throw (.input .missingEntity)

def request (fetch : Fetch) : Inquiry Request :=
  match admissible fetch with
  | .ok root => (rootRequest fetch root).run' {}
  | .error fault => .fail fault

end FetchOData.Compile
