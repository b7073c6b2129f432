import FetchOData.Literal
import FetchOData.Query.Operator
import FetchOData.Query.LinkKind

namespace FetchOData
open Query (Operator LinkKind)

/-- What a request cannot express. -/
inductive Unsupported where
  | dataSource (name : String)
  | paging (page : UInt32)
  | orderOnLink (link column : String)
  | childCollectionFilter (path : String)
  | nestedFilter (path : String)
  | nestedInnerJoin (path : String)
  | relationship (entity toColumn link fromColumn : String)
  | manyToManyShape (link : String)
  | unknownOperator (token : String)
  | unknownLinkKind (token : String)
  | unknownAggregate (token : String)
  | emptyAggregate (entity : String)
  | nonInvertibleOperator (operator : Operator)
  | nonInvertibleLink (kind : LinkKind)
  | complexWildcard (value : String)
  | linkKindInFilter (kind : LinkKind)
  | linkKindInJoin (kind : LinkKind)
  | preferHeaderRequired
deriving DecidableEq, Repr

def Unsupported.message : Unsupported → String
  | dataSource name => "Only live data is supported in Web API (datasource '" ++ name ++ "')"
  | paging page =>
    "Skipping to page " ++ Number.integerText page.toNat ++ " is not supported in Web API. " ++
      "Load the first page and follow the @odata.nextLink URLs to get to subsequent pages"
  | orderOnLink link column =>
    "OData queries do not support ordering on link entities. Please remove the sort on " ++
      link ++ "." ++ column
  | childCollectionFilter path => "Cannot apply filter to child collection " ++ path
  | nestedFilter path =>
    "Cannot filter on nested link-entity " ++ path ++ ". Try rearranging your query to have " ++
      "filters in first-level link-entities only"
  | nestedInnerJoin path =>
    "Cannot include inner join on nested link-entity " ++ path ++ ". Try rearranging your " ++
      "query to have inner joins on first-level link-entities only"
  | relationship entity toColumn link fromColumn =>
    "Cannot find metadata for relation " ++ entity ++ "." ++ toColumn ++ " => " ++
      link ++ "." ++ fromColumn
  | manyToManyShape link => "Invalid M:M-relation definition for OData on link-entity " ++ link
  | unknownOperator token => "Unsupported OData condition operator '" ++ token ++ "'"
  | unknownLinkKind token => "Unsupported link-type '" ++ token ++ "'"
  | unknownAggregate token => "Unsupported aggregate type '" ++ token ++ "'"
  | emptyAggregate entity =>
    "Aggregate query on " ++ entity ++ " has no group-by or aggregate attributes"
  | nonInvertibleOperator operator => "Cannot invert operator " ++ operator.token
  | nonInvertibleLink kind => "Cannot invert link-type " ++ kind.token
  | complexWildcard value =>
    "OData queries do not support complex LIKE wildcards. " ++
      "Only % at the start or end of the value is supported (value '" ++ value ++ "')"
  | linkKindInFilter kind =>
    "link-type '" ++ kind.token ++ "' cannot be used as a filter condition, " ++
      "expected any, all, not any or not all"
  | linkKindInJoin kind =>
    "link-type '" ++ kind.token ++ "' is only supported on link-entities inside a filter"
  | preferHeaderRequired => "A Prefer header is required in addition to the URL"

/-- What is wrong with a query, read against its schema. -/
inductive InputFault where
  | missingEntity
  | unknownAttribute (entity column : String)
  | unknownEntityName (name : String)
  | missingValue (column : String) (operator : Operator)
  | valueCount (column : String) (operator : Operator) (expected found : Nat)
  | invalidValue (kind : LiteralKind) (value : String) (fault : LiteralFault)
deriving DecidableEq, Repr

def InputFault.message : InputFault → String
  | missingEntity => "Fetch must contain entity definition"
  | unknownAttribute entity column =>
    "No metadata for attribute: " ++ entity ++ "." ++ column
  | unknownEntityName name => "Cannot find filter entity " ++ name
  | missingValue column operator =>
    "Condition on " ++ column ++ " with operator " ++ operator.token ++ " requires a value"
  | valueCount column operator expected found =>
    "Condition on " ++ column ++ " with operator " ++ operator.token ++ " requires " ++
      Number.integerText expected ++ " values, found " ++ Number.integerText found
  | invalidValue kind value fault =>
    "Invalid " ++ kind.name ++ " value '" ++ value ++ "': " ++ fault.message

/-- Why schema records could not be loaded. -/
inductive LoadFault where
  | notJson
  | wrongShape
deriving DecidableEq, Repr

inductive SchemaFault where
  | entityNotFound (name : String)
  | typeCodeNotFound (code : Int32)
  | missingCollectionName (entity : String)
  | load (fault : LoadFault)
deriving DecidableEq, Repr

def SchemaFault.message : SchemaFault → String
  | entityNotFound name => "Entity '" ++ name ++ "' not found"
  | typeCodeNotFound code =>
    "Entity with object type code " ++ Number.integerText code.toInt ++ " not found"
  | missingCollectionName entity => "Entity '" ++ entity ++ "' has no collection name"
  | load .notJson => "Failed to load metadata: the text is not JSON"
  | load .wrongShape =>
    "Failed to load metadata: data did not match any variant of untagged enum EntityDefinitions"

inductive Fault where
  | notConnected
  | unsupported (cause : Unsupported)
  | input (cause : InputFault)
  | schema (cause : SchemaFault)
deriving DecidableEq, Repr

namespace Fault

def message : Fault → String
  | notConnected =>
    "Must have an active connection to the metadata source to compose an OData query"
  | unsupported cause => cause.message
  | input cause => cause.message
  | schema cause => cause.message

def isUnsupported : Fault → Bool
  | unsupported _ => true
  | _ => false

def isInput : Fault → Bool
  | input _ => true
  | _ => false

/-- A lookup that found nothing. -/
def isNotFound : Fault → Bool
  | schema (.entityNotFound _) | schema (.typeCodeNotFound _) => true
  | _ => false

end Fault

end FetchOData
