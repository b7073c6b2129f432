import FetchOData.Connective
import FetchOData.Query.LinkKind
import FetchOData.Text.Form

namespace FetchOData.OData
open Query (Quantifier)

/-- The navigation properties and range variables in front of a property. -/
abbrev Path := List String

/-- Every segment is followed by a slash. -/
def Path.text : Path → String
  | [] => ""
  | segment :: rest => segment ++ "/" ++ Path.text rest

/-- A property of the row that a path leads to. A managed property holds its value one level
further down. -/
structure Property where
  path : Path
  name : String
  managed : Bool := false
deriving DecidableEq, Repr

def Property.text (p : Property) : String :=
  p.path.text ++ p.name ++ (if p.managed then "/Value" else "")

inductive Comparison where
  | eq
  | ne
  | gt
  | ge
  | lt
  | le
deriving DecidableEq, Repr

def Comparison.word : Comparison → String
  | eq => "eq"
  | ne => "ne"
  | gt => "gt"
  | ge => "ge"
  | lt => "lt"
  | le => "le"

/-- The right side of a comparison, as it is written. -/
inductive Operand where
  | literal (text : String)
  | column (name : String)
deriving DecidableEq, Repr

def Operand.text : Operand → String
  | literal text => text
  | column name => name

inductive TextTest where
  | contains
  | startsWith
  | endsWith
deriving DecidableEq, Repr

def TextTest.word : TextTest → String
  | contains => "contains"
  | startsWith => "startswith"
  | endsWith => "endswith"

/-- The arguments of a query function after the property name, each as it is written. -/
inductive Arguments where
  | none
  | one (value : String)
  | two (first second : String)
  | many (values : List String)
deriving DecidableEq, Repr

def Arguments.text : Arguments → String
  | none => ""
  | one value => ",PropertyValue=" ++ value
  | two first second => ",Property1=" ++ first ++ ",Property2=" ++ second
  | many values => ",PropertyValues=[" ++ ",".intercalate values ++ "]"

mutual
inductive Predicate where
  /-- Text that is written as it stands. -/
  | verbatim (text : String)
  | compare (property : Property) (comparison : Comparison) (operand : Operand)
  | isNull (property : Property) (negated : Bool)
  /-- A test on the text of an attribute. -/
  | test (negated : Bool) (test : TextTest) (path : Path) (column : String) (text : String)
  /-- A query function of the service, bound to the row that the path leads to. -/
  | call (path : Path) (function : String) (column : String) (arguments : Arguments)
  /-- What some or all of the related rows satisfy. -/
  | related (negated : Bool) (path : Path) (collection : String) (quantifier : Quantifier)
      (range : String) (body : List Group)
structure Group where
  connective : Connective := .and
  predicates : List Predicate := []
  groups : List Group := []
end

def negation (negated : Bool) : String :=
  if negated then "not " else ""

/-- Items in parentheses with the connective between them, none when there are no items. -/
def parenthesized? (connective : Connective) (items : List String) : Option String :=
  if items.isEmpty then none
  else some ("(" ++ (" " ++ connective.word ++ " ").intercalate items ++ ")")

/-- Items with `and` between them, none when there are no items. -/
def conjunction? (items : List String) : Option String :=
  if items.isEmpty then none else some (" and ".intercalate items)

mutual
def Predicate.text : Predicate → String
  | .verbatim text => text
  | .compare property comparison operand =>
    property.text ++ " " ++ comparison.word ++ " " ++ operand.text
  | .isNull property negated => property.text ++ (if negated then " ne null" else " eq null")
  | .test negated test path column text =>
    negation negated ++ test.word ++ "(" ++ Text.encode (path.text ++ column) ++ ", " ++
      Text.quoted text ++ ")"
  | .call path function column arguments =>
    path.text ++ "Microsoft.Dynamics.CRM." ++ function ++ "(PropertyName='" ++
      Text.encode column ++ "'" ++ arguments.text ++ ")"
  | .related negated path collection quantifier range body =>
    negation negated ++ path.text ++ collection ++ "/" ++ quantifier.word ++ "(" ++
      (match conjunction? (Group.texts body) with
        | some joined => range ++ ":" ++ joined
        | none => "") ++ ")"
/-- A group without anything to write is left out. -/
def Group.text? : Group → Option String
  | ⟨connective, predicates, groups⟩ =>
    parenthesized? connective (Predicate.texts predicates ++ Group.texts groups)
/-- The texts of the predicates that have one. -/
def Predicate.texts : List Predicate → List String
  | [] => []
  | p :: ps => if p.text.isEmpty then Predicate.texts ps else p.text :: Predicate.texts ps
/-- The texts of the groups that have one. -/
def Group.texts : List Group → List String
  | [] => []
  | g :: gs =>
    match g.text? with
    | some text => text :: Group.texts gs
    | none => Group.texts gs
end

def Group.single (p : Predicate) : Group :=
  { predicates := [p] }

/-- A list of groups as one condition, none when nothing is left to write. -/
def Group.conjunction? (groups : List Group) : Option String :=
  OData.conjunction? (Group.texts groups)

end FetchOData.OData
