import FetchOData.OData.Predicate
import FetchOData.Number.Integer

namespace FetchOData.OData

/-- A navigation property with what is asked of the rows behind it. -/
structure Expand where
  property : String
  select : List String := []
  expand : List Expand := []
  filter : List Group := []

structure Ordering where
  property : String
  descending : Bool := false
deriving DecidableEq, Repr

/-- A query on a collection. One with groups or aggregates summarises the rows and returns none of
them. -/
structure Request where
  target : Expand
  top : Option UInt32 := none
  orderBy : List Ordering := []
  groups : List String := []
  aggregates : List String := []

/-- A query option, none when there is nothing to put in it. -/
def option? (name : String) (items : List String) : Option String :=
  if items.isEmpty then none else some ("$" ++ name ++ "=" ++ ",".intercalate items)

def filterOption? (filter : List Group) : Option String :=
  (Group.conjunction? filter).map ("$filter=" ++ ·)

/-- The query options that rows of any entity have, in the order in which they are written. -/
def rowOptions (select expand : List String) (filter : List Group) : List String :=
  (option? "select" select).toList ++ (option? "expand" expand).toList ++
    (filterOption? filter).toList

/-- A property with its options in parentheses. -/
def withOptions (property : String) (options : List String) : String :=
  if options.isEmpty then property else property ++ "(" ++ ";".intercalate options ++ ")"

mutual
def Expand.text : Expand → String
  | ⟨property, select, expand, filter⟩ =>
    withOptions property (rowOptions select (Expand.texts expand) filter)
def Expand.texts : List Expand → List String
  | [] => []
  | e :: es => e.text :: Expand.texts es
end

def Expand.options (e : Expand) : List String :=
  rowOptions e.select (Expand.texts e.expand) e.filter

def Ordering.text (o : Ordering) : String :=
  o.property ++ (if o.descending then " desc" else " asc")

namespace Request

def isAggregate (r : Request) : Bool :=
  !r.groups.isEmpty || !r.aggregates.isEmpty

/-- Groups and aggregates as one transformation. -/
def summary (r : Request) : String :=
  let groups := ",".intercalate r.groups
  let aggregates := ",".intercalate r.aggregates
  if r.groups.isEmpty then "aggregate(" ++ aggregates ++ ")"
  else if r.aggregates.isEmpty then "groupby((" ++ groups ++ "))"
  else "groupby((" ++ groups ++ "),aggregate(" ++ aggregates ++ "))"

/-- The filter comes first, so that only rows that pass it are summarised. -/
def apply (r : Request) : String :=
  match Group.conjunction? r.target.filter with
  | some filter => "filter(" ++ filter ++ ")/" ++ r.summary
  | none => r.summary

def topOption? (r : Request) : Option String :=
  r.top.map fun n => "$top=" ++ Number.integerText n.toNat

def options (r : Request) : List String :=
  if r.isAggregate then ["$apply=" ++ r.apply]
  else
    r.target.options ++ (option? "orderby" (r.orderBy.map Ordering.text)).toList ++
      r.topOption?.toList

/-- The base without the slashes at its end. -/
def trimBase (base : String) : String :=
  String.ofList (base.toList.reverse.dropWhile (· == '/')).reverse

def url (r : Request) (base : String) : String :=
  let resource := trimBase base ++ "/" ++ r.target.property
  if r.options.isEmpty then resource else resource ++ "?" ++ "&".intercalate r.options

end Request

end FetchOData.OData
