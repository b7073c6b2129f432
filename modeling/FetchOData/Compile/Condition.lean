import FetchOData.Compile.Form
import FetchOData.Compile.Navigation
import FetchOData.Compile.Pattern

namespace FetchOData.Compile
open Query OData

/-- Where a condition stands: the entity it is about and the path to its rows. -/
structure Site where
  entity : String
  path : Path
deriving DecidableEq, Repr

/-- A link found by its name. `collection` tells whether any step to it leads to many rows. -/
structure Sighting where
  site : Site
  collection : Bool
deriving DecidableEq, Repr

/-- Searches links depth first for the first one that goes by a name. A link that crosses an
intersect entity goes by the name of either end. -/
def findLink (name parent : String) (path : Path) (collection : Bool) (links : List Link) :
    Compile (Option Sighting) :=
  match links with
  | [] => pure none
  | link :: rest => do
    let navigation ← resolve parent link
    let goal := target navigation.route link
    let here : Sighting :=
      ⟨⟨goal.name, path ++ [navigation.property]⟩, collection || navigation.isCollection⟩
    if goal.isReferencedBy name || link.isReferencedBy name then return some here
    match ← findLink name goal.name here.site.path here.collection goal.links with
    | some sighting => return some sighting
    | none => findLink name parent path collection rest
termination_by Link.sizes links
decreasing_by
  · exact sizes_target_links_lt ..
  · exact sizes_rest_lt ..

/-- A condition that names a link is about that link, wherever it stands. -/
def subject (root : Query.Entity) (site : Site) : Option String → Compile Site
  | none => pure site
  | some name => do
    match ← findLink name root.name [] false root.links with
    | none => reject (.input (.unknownEntityName name))
    | some sighting =>
      if sighting.collection then
        reject (.unsupported (.childCollectionFilter sighting.site.path.text))
      else return sighting.site

/-- Conditions reach through one navigation property or range variable at most. -/
def tooDeep (path : Path) : Bool :=
  2 ≤ path.text.toList.count '/'

def formatted (kind : LiteralKind) (value : String) : Compile String :=
  ofExcept (fun fault => .input (.invalidValue kind value fault)) (Literal.format kind value)

/-- A value as a literal of the attribute. Where an entity name is wanted, a type code stands for
the entity that has it. -/
def literal (attr : Schema.Attribute) (value : String) : Compile String :=
  match attr.valueKind, Number.integer Number.bound32 (Text.trim value.toList) with
  | .entityName, .ok code => do
    let record ← typeCode (Int32.ofInt code)
    return Text.quoted record.name
  | kind, _ => formatted kind.literal value

def requiredValue (c : Condition) : Compile String :=
  match c.value with
  | some value => pure value
  | none => reject (.input (.missingValue c.column c.operator))

def operand (attr : Schema.Attribute) (c : Condition) : Compile Operand := do
  match c.value, c.valueOf with
  | none, some column => return .column column
  | _, _ => return .literal (← literal attr (← requiredValue c))

def arguments (c : Condition) : Arity → Compile Arguments
  | .none => pure .none
  | .one kind => do return .one (← formatted kind (← requiredValue c))
  | .two kind => do
    match c.values with
    | [first, second] => return .two (← formatted kind first) (← formatted kind second)
    | values => reject (.input (.valueCount c.column c.operator 2 values.length))
  | .many kind => do
    let values ← if c.values.isEmpty then List.singleton <$> requiredValue c else pure c.values
    return .many (← values.mapM (formatted kind))

/-- A pattern with an open end is a test on the text, one without is a comparison. -/
def likePredicate (attr : Schema.Attribute) (path : Path) (property : Property) (negated : Bool)
    (value : String) : Compile Predicate := do
  match Pattern.ofChars? value.toList with
  | none => reject (.unsupported (.complexWildcard value))
  | some ⟨text, leading, trailing⟩ =>
    let text := String.ofList text
    match leading, trailing with
    | false, false =>
      return .compare property (if negated then .ne else .eq) (.literal (← literal attr text))
    | true, true => return .test negated .contains path attr.name text
    | true, false => return .test negated .endsWith path attr.name text
    | false, true => return .test negated .startsWith path attr.name text

def predicate (attr : Schema.Attribute) (path : Path) (c : Condition) : Compile Predicate := do
  let property : Property := ⟨path, attr.property, attr.isManaged⟩
  match Form.ofOperator c.operator with
  | .compare comparison => return .compare property comparison (← operand attr c)
  | .isNull negated => return .isNull property negated
  | .like negated => likePredicate attr path property negated (← requiredValue c)
  | .test negated test => return .test negated test path attr.name (← requiredValue c)
  | .call function arity => return .call path function attr.name (← arguments c arity)

def condition (root : Query.Entity) (site : Site) (c : Condition) : Compile Predicate := do
  let site ← subject root site c.entityName
  if tooDeep site.path then reject (.unsupported (.nestedFilter site.path.text))
  else
    let record ← entity site.entity
    match record.findAttribute? c.column with
    | some attr => predicate attr site.path c
    | none => reject (.input (.unknownAttribute site.entity c.column))

end FetchOData.Compile
