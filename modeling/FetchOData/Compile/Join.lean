import FetchOData.Compile.Filter
import FetchOData.OData.Request

namespace FetchOData.Compile
open Query OData

def columnProperty (entityName : String) (record : Schema.Entity) (column : String) :
    Except Fault String :=
  match record.findAttribute? column with
  | some attr => .ok attr.property
  | none => .error (.input (.unknownAttribute entityName column))

/-- The properties of the selected columns. Selecting all columns lists none of them. -/
def select (entityName : String) (selection : Selection) : Compile (List String) := do
  if selection.allColumns then return []
  else
    let record ← entity entityName
    ofExcept id (selection.columns.mapM fun c => columnProperty entityName record c.name)

/-- Rows of a link cannot be ordered. -/
def rejectOrders (link goal : Link) : Compile Unit :=
  match link.selection.orders ++ goal.selection.orders with
  | [] => pure ()
  | order :: _ =>
    reject (.unsupported
      (.orderOnLink (link.join.aliasName.getD link.join.entity) order.column))

/-- The links of an entity as expanded properties. The filters of an inner link to one row decide
about the row that is expanded from, so they are not repeated here. -/
def expands (root : Query.Entity) (parent : String) (links : List Link) :
    Compile (List Expand) :=
  match links with
  | [] => pure []
  | link :: rest =>
    if link.join.kind.quantifier?.isSome then
      reject (.unsupported (.linkKindInJoin link.join.kind))
    else if link.hasContent then do
      let navigation ← resolve parent link
      let goal := target navigation.route link
      rejectOrders link goal
      let selected ← select goal.name goal.selection
      let filter ←
        if link.join.kind = .outer || navigation.isCollection then
          filterGroups root ⟨goal.name, []⟩ goal.filters
        else pure []
      let nested ← expands root goal.name goal.links
      return ⟨navigation.property, selected, nested, filter⟩ :: (← expands root parent rest)
    else expands root parent rest
termination_by Link.sizes links
decreasing_by
  · exact sizes_target_links_lt ..
  · exact sizes_rest_lt ..
  · exact sizes_rest_lt ..

/-- A row is there if its primary key is. -/
def present (path : Path) (key : String) : Group :=
  .single (.isNull ⟨path, key, false⟩ true)

/-- The conditions that make inner links drop the rows without a match. -/
def innerJoins (root : Query.Entity) (parent : String) (path : Path) (links : List Link) :
    Compile (List Group) :=
  match links with
  | [] => pure []
  | link :: rest =>
    if link.join.kind = .inner then do
      let navigation ← resolve parent link
      let goal := target navigation.route link
      let key := (← entity goal.name).primaryKey
      if navigation.isCollection then
        let range ← freshJoin
        let own ← filterGroups root ⟨goal.name, [range]⟩ goal.filters
        let nested ← innerJoins root goal.name [range] goal.links
        let body := if (Group.conjunction? own).isSome then own else [present [range] key]
        let join := Predicate.related false path navigation.property .any range (body ++ nested)
        return .single join :: (← innerJoins root parent path rest)
      else
        let inner := path ++ [navigation.property]
        let own ← filterGroups root ⟨goal.name, inner⟩ goal.filters
        if (Group.conjunction? own).isNone && !path.isEmpty then
          reject (.unsupported (.nestedInnerJoin (path.text ++ navigation.property)))
        else
          let body := if (Group.conjunction? own).isSome then own else [present inner key]
          let nested ← innerJoins root goal.name inner goal.links
          return body ++ nested ++ (← innerJoins root parent path rest)
    else innerJoins root parent path rest
termination_by Link.sizes links
decreasing_by
  · exact sizes_target_links_lt ..
  · exact sizes_rest_lt ..
  · exact sizes_target_links_lt ..
  · exact sizes_rest_lt ..
  · exact sizes_rest_lt ..

end FetchOData.Compile
