import FetchOData.Compile.Condition
import FetchOData.Compile.Filter
import FetchOData.Compile.Form
import FetchOData.Compile.Inquiry
import FetchOData.Compile.Join
import FetchOData.Compile.Navigation
import FetchOData.Compile.Pattern
import FetchOData.Compile.Request
import FetchOData.Connective
import FetchOData.Fault
import FetchOData.Guid
import FetchOData.Json.Basic
import FetchOData.Json.Field
import FetchOData.Json.Reader
import FetchOData.Json.Numeral
import FetchOData.Json.Quoted
import FetchOData.Json.Token
import FetchOData.Json.Writer
import FetchOData.Literal
import FetchOData.Number.Binary64
import FetchOData.Number.Decimal
import FetchOData.Number.Digit
import FetchOData.Number.Double
import FetchOData.Number.Integer
import FetchOData.Number.Shortest
import FetchOData.OData.Predicate
import FetchOData.OData.Request
import FetchOData.Proofs.ConditionRules
import FetchOData.Proofs.FilterRules
import FetchOData.Proofs.Snapshot
import FetchOData.Query.Aggregate
import FetchOData.Query.Build
import FetchOData.Query.Codec
import FetchOData.Query.Equality
import FetchOData.Query.Inversion
import FetchOData.Query.LinkKind
import FetchOData.Query.Operator
import FetchOData.Query.Size
import FetchOData.Query.Tree
import FetchOData.Schema.Attribute
import FetchOData.Schema.Codec
import FetchOData.Schema.Entity
import FetchOData.Schema.Relationship
import FetchOData.Session
import FetchOData.Source.Basic
import FetchOData.Source.Cache
import FetchOData.Source.Catalog
import FetchOData.Text.Blank
import FetchOData.Text.Form
import FetchOData.Text.Scan
import FetchOData.Time.Date
import FetchOData.Time.Moment
import FetchOData.WebQuery
import FetchOData.Proofs.JoinRules
import FetchOData.Proofs.Coverage
import FetchOData.Proofs.Complement
import FetchOData.Proofs.InnerJoin
import FetchOData.Proofs.Transparency
import FetchOData.Proofs.LiteralText
import FetchOData.Proofs.Spelling
import FetchOData.Proofs.Wording
import FetchOData.Proofs.Delimiters
import FetchOData.Proofs.SelfContained
import FetchOData.Proofs.RangeVariables
import FetchOData.Proofs.QueryOptions
import FetchOData.Proofs.NormalForm
import FetchOData.Proofs.Unambiguous
import FetchOData.Proofs.Lookups
import FetchOData.Proofs.SchemaGrowth
import FetchOData.Proofs.ExpandPaths
import FetchOData.Proofs.FilterReach
import FetchOData.Proofs.CacheIndexes
import FetchOData.Proofs.JoinedLinks
import FetchOData.Proofs.Alike
import FetchOData.Proofs.Pruning
import FetchOData.Proofs.EmptyFilters
import FetchOData.Proofs.ReadBack
import FetchOData.Proofs.Involution
import FetchOData.Proofs.DeMorgan
import FetchOData.Proofs.LikePatterns
import FetchOData.Proofs.Relationships
import FetchOData.Proofs.NamedLinks
import FetchOData.Proofs.Placement
import FetchOData.Proofs.JoinBinders
import FetchOData.Proofs.JoinTrees
import FetchOData.Proofs.CacheAccounting
import FetchOData.Proofs.Calendar
import FetchOData.Proofs.FormDecoding
import FetchOData.Proofs.MomentText
import FetchOData.Proofs.Numerals
import FetchOData.Proofs.MomentReading
import FetchOData.Proofs.MomentStability
import FetchOData.Proofs.OperatorTokens
import FetchOData.Proofs.Loading
import FetchOData.Proofs.IntegerReading
import FetchOData.Proofs.GuidSpelling
import FetchOData.Proofs.DecimalReading
import FetchOData.Proofs.CanonicalLiterals
