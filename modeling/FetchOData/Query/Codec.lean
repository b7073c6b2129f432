import FetchOData.Query.Tree
import FetchOData.Json.Field

namespace FetchOData.Query
open Json

def Operator.ofJson (j : Json) : Decoded Operator := do
  let s ← string j
  match ofToken? s with
  | some operator => return operator
  | none => throw (.unsupported (.unknownOperator s))

def LinkKind.ofJson (j : Json) : Decoded LinkKind := do
  let s ← string j
  match ofToken? s with
  | some kind => return kind
  | none => throw (.unsupported (.unknownLinkKind s))

def Aggregate.ofJson (j : Json) : Decoded Aggregate := do
  let s ← string j
  match ofToken? s with
  | some aggregate => return aggregate
  | none => throw (.unsupported (.unknownAggregate s))

def connectiveOfJson (j : Json) : Decoded Connective := do
  match Connective.ofWord? (← string j) with
  | some connective => return connective
  | none => throw .shape

namespace Column

def ofJson (j : Json) : Decoded Column := do
  let fs ← fields j
  return {
    name := ← required string fs "name"
    aliasName := ← optional string fs "alias"
    groupBy := ← orElse boolean false fs "groupby"
    aggregate := ← optional Aggregate.ofJson fs "aggregate" }

def toJson (c : Column) : Json :=
  .obj [("name", .str c.name), ("alias", ofOption .str c.aliasName), ("groupby", .bool c.groupBy),
    ("aggregate", ofOption (fun a => .str a.token) c.aggregate)]

end Column

namespace Order

def ofJson (j : Json) : Decoded Order := do
  let fs ← fields j
  return {
    column := ← required string fs "attribute"
    descending := ← orElse boolean false fs "descending"
    aliasName := ← optional string fs "alias" }

def toJson (o : Order) : Json :=
  .obj [("attribute", .str o.column), ("descending", .bool o.descending),
    ("alias", ofOption .str o.aliasName)]

end Order

namespace Condition

def ofJson (j : Json) : Decoded Condition := do
  let fs ← fields j
  return {
    column := ← required string fs "attribute"
    operator := ← required Operator.ofJson fs "operator"
    value := ← optional string fs "value"
    values := ← orElse (listOf string) [] fs "values"
    entityName := ← optional string fs "entityname"
    valueOf := ← optional string fs "valueof" }

def toJson (c : Condition) : Json :=
  .obj [("attribute", .str c.column), ("operator", .str c.operator.token),
    ("value", ofOption .str c.value), ("values", ofList .str c.values),
    ("entityname", ofOption .str c.entityName), ("valueof", ofOption .str c.valueOf)]

end Condition

def Selection.ofFields (fs : List (String × Json)) : Decoded Selection := do
  return {
    columns := ← orElse (listOf Column.ofJson) [] fs "attributes"
    allColumns := ← orElse boolean false fs "all-attributes"
    orders := ← orElse (listOf Order.ofJson) [] fs "orders" }

def Selection.toFields (s : Selection) : List (String × Json) :=
  [("attributes", ofList Column.toJson s.columns), ("all-attributes", .bool s.allColumns),
    ("orders", ofList Order.toJson s.orders)]

def Join.ofFields (fs : List (String × Json)) : Decoded Join := do
  return {
    entity := ← required string fs "name"
    fromColumn := ← required string fs "from"
    toColumn := ← required string fs "to"
    kind := ← orElse LinkKind.ofJson .inner fs "link-type"
    aliasName := ← optional string fs "alias" }

def Join.toFields (j : Join) : List (String × Json) :=
  [("name", .str j.entity), ("from", .str j.fromColumn), ("to", .str j.toColumn),
    ("link-type", .str j.kind.token), ("alias", ofOption .str j.aliasName)]

mutual
def Filter.ofJson : Json → Decoded Filter
  | .obj fs => do
    return {
      connective := ← orElse connectiveOfJson .and fs "type"
      conditions := ← orElse (listOf Condition.ofJson) [] fs "conditions"
      filters := ← Filter.listUnder "filters" fs
      links := ← Link.listUnder "links" fs }
  | _ => .error .shape
def Link.ofJson : Json → Decoded Link
  | .obj fs => do
    return {
      join := ← Join.ofFields fs
      selection := ← Selection.ofFields fs
      filters := ← Filter.listUnder "filters" fs
      links := ← Link.listUnder "links" fs }
  | _ => .error .shape
/-- The filters in the list under a key, none when the key is absent. -/
def Filter.listUnder (key : String) : List (String × Json) → Decoded (List Filter)
  | [] => .ok []
  | (k, value) :: fs =>
    if key = k then
      if key ∈ fs.map Prod.fst then .error .shape else Filter.listOfJson value
    else Filter.listUnder key fs
def Filter.listOfJson : Json → Decoded (List Filter)
  | .arr items => Filter.ofItems items
  | _ => .error .shape
def Filter.ofItems : List Json → Decoded (List Filter)
  | [] => .ok []
  | item :: items => do return (← Filter.ofJson item) :: (← Filter.ofItems items)
/-- The links in the list under a key, none when the key is absent. -/
def Link.listUnder (key : String) : List (String × Json) → Decoded (List Link)
  | [] => .ok []
  | (k, value) :: fs =>
    if key = k then
      if key ∈ fs.map Prod.fst then .error .shape else Link.listOfJson value
    else Link.listUnder key fs
def Link.listOfJson : Json → Decoded (List Link)
  | .arr items => Link.ofItems items
  | _ => .error .shape
def Link.ofItems : List Json → Decoded (List Link)
  | [] => .ok []
  | item :: items => do return (← Link.ofJson item) :: (← Link.ofItems items)
end

mutual
def Filter.toJson : Filter → Json
  | ⟨connective, conditions, filters, links⟩ =>
    .obj [("type", .str connective.word), ("conditions", ofList Condition.toJson conditions),
      ("filters", .arr (Filter.toItems filters)), ("links", .arr (Link.toItems links))]
def Link.toJson : Link → Json
  | ⟨join, selection, filters, links⟩ =>
    .obj (join.toFields ++ selection.toFields ++
      [("filters", .arr (Filter.toItems filters)), ("links", .arr (Link.toItems links))])
def Filter.toItems : List Filter → List Json
  | [] => []
  | f :: fs => f.toJson :: Filter.toItems fs
def Link.toItems : List Link → List Json
  | [] => []
  | l :: ls => l.toJson :: Link.toItems ls
end

namespace Entity

def ofJson (j : Json) : Decoded Entity := do
  let fs ← fields j
  return {
    name := ← required string fs "name"
    selection := ← Selection.ofFields fs
    filters := ← Filter.listUnder "filters" fs
    links := ← Link.listUnder "links" fs }

def toJson (e : Entity) : Json :=
  .obj (("name", .str e.name) :: e.selection.toFields ++
    [("filters", .arr (Filter.toItems e.filters)), ("links", .arr (Link.toItems e.links))])

end Entity

namespace Fetch

def ofJson (j : Json) : Decoded Fetch := do
  let fs ← fields j
  return {
    top := ← optional uint32 fs "top"
    count := ← optional uint32 fs "count"
    page := ← optional uint32 fs "page"
    aggregate := ← orElse boolean false fs "aggregate"
    datasource := ← optional string fs "datasource"
    entity := ← optional Entity.ofJson fs "entity" }

def toJson (f : Fetch) : Json :=
  let number (n : UInt32) : Json := .int n.toNat
  .obj [("top", ofOption number f.top), ("count", ofOption number f.count),
    ("page", ofOption number f.page), ("aggregate", .bool f.aggregate),
    ("datasource", ofOption .str f.datasource), ("entity", ofOption Entity.toJson f.entity)]

end Fetch

end FetchOData.Query
