import FetchOData.Query.Operator
import FetchOData.OData.Predicate
import FetchOData.Literal

namespace FetchOData.Compile
open Query OData

/-- The values that a query function takes beside the property, and their type. -/
inductive Arity where
  | none
  | one (kind : LiteralKind)
  | two (kind : LiteralKind)
  | many (kind : LiteralKind)
deriving DecidableEq, Repr

/-- The predicate that an operator is written as. -/
inductive Form where
  | compare (comparison : Comparison)
  | isNull (negated : Bool)
  | like (negated : Bool)
  | test (negated : Bool) (test : TextTest)
  | call (function : String) (arity : Arity)
deriving DecidableEq, Repr

def Form.ofOperator : Operator → Form
  | .eq => .compare .eq
  | .neq | .ne => .compare .ne
  | .gt => .compare .gt
  | .ge => .compare .ge
  | .lt => .compare .lt
  | .le => .compare .le
  | .isNull => .isNull false
  | .isNotNull => .isNull true
  | .like => .like false
  | .notLike => .like true
  | .beginsWith => .test false .startsWith
  | .notBeginWith => .test true .startsWith
  | .endsWith => .test false .endsWith
  | .notEndWith => .test true .endsWith
  | .inList => .call "In" (.many .string)
  | .notInList => .call "NotIn" (.many .string)
  | .between => .call "Between" (.many .string)
  | .notBetween => .call "NotBetween" (.many .string)
  | .containValues => .call "ContainValues" (.many .string)
  | .notContainValues => .call "DoesNotContainValues" (.many .string)
  | .onDate => .call "On" (.one .string)
  | .onOrAfter => .call "OnOrAfter" (.one .string)
  | .onOrBefore => .call "OnOrBefore" (.one .string)
  | .under => .call "Under" (.one .string)
  | .eqOrUnder => .call "UnderOrEqual" (.one .string)
  | .notUnder => .call "NotUnder" (.one .string)
  | .above => .call "Above" (.one .string)
  | .eqOrAbove => .call "AboveOrEqual" (.one .string)
  | .lastXHours => .call "LastXHours" (.one .bigInt)
  | .lastXDays => .call "LastXDays" (.one .bigInt)
  | .lastXWeeks => .call "LastXWeeks" (.one .bigInt)
  | .lastXMonths => .call "LastXMonths" (.one .bigInt)
  | .lastXYears => .call "LastXYears" (.one .bigInt)
  | .lastXFiscalYears => .call "LastXFiscalYears" (.one .bigInt)
  | .lastXFiscalPeriods => .call "LastXFiscalPeriods" (.one .bigInt)
  | .nextXHours => .call "NextXHours" (.one .bigInt)
  | .nextXDays => .call "NextXDays" (.one .bigInt)
  | .nextXWeeks => .call "NextXWeeks" (.one .bigInt)
  | .nextXMonths => .call "NextXMonths" (.one .bigInt)
  | .nextXYears => .call "NextXYears" (.one .bigInt)
  | .nextXFiscalYears => .call "NextXFiscalYears" (.one .bigInt)
  | .nextXFiscalPeriods => .call "NextXFiscalPeriods" (.one .bigInt)
  | .olderThanXMinutes => .call "OlderThanXMinutes" (.one .bigInt)
  | .olderThanXHours => .call "OlderThanXHours" (.one .bigInt)
  | .olderThanXDays => .call "OlderThanXDays" (.one .bigInt)
  | .olderThanXWeeks => .call "OlderThanXWeeks" (.one .bigInt)
  | .olderThanXMonths => .call "OlderThanXMonths" (.one .bigInt)
  | .olderThanXYears => .call "OlderThanXYears" (.one .bigInt)
  | .inFiscalYear => .call "InFiscalYear" (.one .bigInt)
  | .inFiscalPeriod => .call "InFiscalPeriod" (.one .bigInt)
  | .inFiscalPeriodAndYear => .call "InFiscalPeriodAndYear" (.two .bigInt)
  | .inOrAfterFiscalPeriodAndYear => .call "InOrAfterFiscalPeriodAndYear" (.two .bigInt)
  | .inOrBeforeFiscalPeriodAndYear => .call "InOrBeforeFiscalPeriodAndYear" (.two .bigInt)
  | .yesterday => .call "Yesterday" .none
  | .today => .call "Today" .none
  | .tomorrow => .call "Tomorrow" .none
  | .lastSevenDays => .call "Last7Days" .none
  | .nextSevenDays => .call "Next7Days" .none
  | .lastWeek => .call "LastWeek" .none
  | .thisWeek => .call "ThisWeek" .none
  | .nextWeek => .call "NextWeek" .none
  | .lastMonth => .call "LastMonth" .none
  | .thisMonth => .call "ThisMonth" .none
  | .nextMonth => .call "NextMonth" .none
  | .lastYear => .call "LastYear" .none
  | .thisYear => .call "ThisYear" .none
  | .nextYear => .call "NextYear" .none
  | .lastFiscalYear => .call "LastFiscalYear" .none
  | .thisFiscalYear => .call "ThisFiscalYear" .none
  | .nextFiscalYear => .call "NextFiscalYear" .none
  | .lastFiscalPeriod => .call "LastFiscalPeriod" .none
  | .thisFiscalPeriod => .call "ThisFiscalPeriod" .none
  | .nextFiscalPeriod => .call "NextFiscalPeriod" .none
  | .eqUserId => .call "EqualUserId" .none
  | .neUserId => .call "NotEqualUserId" .none
  | .eqUserTeams => .call "EqualUserTeams" .none
  | .eqUserOrUserTeams => .call "EqualUserOrUserTeams" .none
  | .eqUserOrUserHierarchy => .call "EqualUserOrUserHierarchy" .none
  | .eqUserOrUserHierarchyAndTeams => .call "EqualUserOrUserHierarchyAndTeams" .none
  | .eqBusinessId => .call "EqualBusinessId" .none
  | .neBusinessId => .call "NotEqualBusinessId" .none
  | .eqUserLanguage => .call "EqualUserLanguage" .none

end FetchOData.Compile
