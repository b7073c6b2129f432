namespace FetchOData.Query

/-- The operators of a condition. -/
inductive Operator where
  | eq
  | neq
  | ne
  | gt
  | ge
  | le
  | lt
  | like
  | notLike
  | inList
  | notInList
  | between
  | notBetween
  | isNull
  | isNotNull
  | yesterday
  | today
  | tomorrow
  | lastSevenDays
  | nextSevenDays
  | lastWeek
  | thisWeek
  | nextWeek
  | lastMonth
  | thisMonth
  | nextMonth
  | onDate
  | onOrBefore
  | onOrAfter
  | lastYear
  | thisYear
  | nextYear
  | lastXHours
  | nextXHours
  | lastXDays
  | nextXDays
  | lastXWeeks
  | nextXWeeks
  | lastXMonths
  | nextXMonths
  | olderThanXMonths
  | olderThanXYears
  | olderThanXWeeks
  | olderThanXDays
  | olderThanXHours
  | olderThanXMinutes
  | lastXYears
  | nextXYears
  | eqUserId
  | neUserId
  | eqUserTeams
  | eqUserOrUserTeams
  | eqUserOrUserHierarchy
  | eqUserOrUserHierarchyAndTeams
  | eqBusinessId
  | neBusinessId
  | eqUserLanguage
  | thisFiscalYear
  | thisFiscalPeriod
  | nextFiscalYear
  | nextFiscalPeriod
  | lastFiscalYear
  | lastFiscalPeriod
  | lastXFiscalYears
  | lastXFiscalPeriods
  | nextXFiscalYears
  | nextXFiscalPeriods
  | inFiscalYear
  | inFiscalPeriod
  | inFiscalPeriodAndYear
  | inOrBeforeFiscalPeriodAndYear
  | inOrAfterFiscalPeriodAndYear
  | beginsWith
  | notBeginWith
  | endsWith
  | notEndWith
  | under
  | eqOrUnder
  | notUnder
  | above
  | eqOrAbove
  | containValues
  | notContainValues
deriving DecidableEq, Repr

namespace Operator

/-- Every operator, in the order of their numbers. -/
def all : List Operator :=
  [.eq, .neq, .ne, .gt, .ge, .le, .lt, .like, .notLike, .inList, .notInList, .between,
   .notBetween, .isNull, .isNotNull, .yesterday, .today, .tomorrow, .lastSevenDays,
   .nextSevenDays, .lastWeek, .thisWeek, .nextWeek, .lastMonth, .thisMonth, .nextMonth, .onDate,
   .onOrBefore, .onOrAfter, .lastYear, .thisYear, .nextYear, .lastXHours, .nextXHours, .lastXDays,
   .nextXDays, .lastXWeeks, .nextXWeeks, .lastXMonths, .nextXMonths, .olderThanXMonths,
   .olderThanXYears, .olderThanXWeeks, .olderThanXDays, .olderThanXHours, .olderThanXMinutes,
   .lastXYears, .nextXYears, .eqUserId, .neUserId, .eqUserTeams, .eqUserOrUserTeams,
   .eqUserOrUserHierarchy, .eqUserOrUserHierarchyAndTeams, .eqBusinessId, .neBusinessId,
   .eqUserLanguage, .thisFiscalYear, .thisFiscalPeriod, .nextFiscalYear, .nextFiscalPeriod,
   .lastFiscalYear, .lastFiscalPeriod, .lastXFiscalYears, .lastXFiscalPeriods, .nextXFiscalYears,
   .nextXFiscalPeriods, .inFiscalYear, .inFiscalPeriod, .inFiscalPeriodAndYear,
   .inOrBeforeFiscalPeriodAndYear, .inOrAfterFiscalPeriodAndYear, .beginsWith, .notBeginWith,
   .endsWith, .notEndWith, .under, .eqOrUnder, .notUnder, .above, .eqOrAbove, .containValues,
   .notContainValues]

def token : Operator → String
  | eq => "eq"
  | neq => "neq"
  | ne => "ne"
  | gt => "gt"
  | ge => "ge"
  | le => "le"
  | lt => "lt"
  | like => "like"
  | notLike => "not-like"
  | inList => "in"
  | notInList => "not-in"
  | between => "between"
  | notBetween => "not-between"
  | isNull => "null"
  | isNotNull => "not-null"
  | yesterday => "yesterday"
  | today => "today"
  | tomorrow => "tomorrow"
  | lastSevenDays => "last-seven-days"
  | nextSevenDays => "next-seven-days"
  | lastWeek => "last-week"
  | thisWeek => "this-week"
  | nextWeek => "next-week"
  | lastMonth => "last-month"
  | thisMonth => "this-month"
  | nextMonth => "next-month"
  | onDate => "on"
  | onOrBefore => "on-or-before"
  | onOrAfter => "on-or-after"
  | lastYear => "last-year"
  | thisYear => "this-year"
  | nextYear => "next-year"
  | lastXHours => "last-x-hours"
  | nextXHours => "next-x-hours"
  | lastXDays => "last-x-days"
  | nextXDays => "next-x-days"
  | lastXWeeks => "last-x-weeks"
  | nextXWeeks => "next-x-weeks"
  | lastXMonths => "last-x-months"
  | nextXMonths => "next-x-months"
  | olderThanXMonths => "olderthan-x-months"
  | olderThanXYears => "olderthan-x-years"
  | olderThanXWeeks => "olderthan-x-weeks"
  | olderThanXDays => "olderthan-x-days"
  | olderThanXHours => "olderthan-x-hours"
  | olderThanXMinutes => "olderthan-x-minutes"
  | lastXYears => "last-x-years"
  | nextXYears => "next-x-years"
  | eqUserId => "eq-userid"
  | neUserId => "ne-userid"
  | eqUserTeams => "eq-userteams"
  | eqUserOrUserTeams => "eq-useroruserteams"
  | eqUserOrUserHierarchy => "eq-useroruserhierarchy"
  | eqUserOrUserHierarchyAndTeams => "eq-useroruserhierarchyandteams"
  | eqBusinessId => "eq-businessid"
  | neBusinessId => "ne-businessid"
  | eqUserLanguage => "eq-userlanguage"
  | thisFiscalYear => "this-fiscal-year"
  | thisFiscalPeriod => "this-fiscal-period"
  | nextFiscalYear => "next-fiscal-year"
  | nextFiscalPeriod => "next-fiscal-period"
  | lastFiscalYear => "last-fiscal-year"
  | lastFiscalPeriod => "last-fiscal-period"
  | lastXFiscalYears => "last-x-fiscal-years"
  | lastXFiscalPeriods => "last-x-fiscal-periods"
  | nextXFiscalYears => "next-x-fiscal-years"
  | nextXFiscalPeriods => "next-x-fiscal-periods"
  | inFiscalYear => "in-fiscal-year"
  | inFiscalPeriod => "in-fiscal-period"
  | inFiscalPeriodAndYear => "in-fiscal-period-and-year"
  | inOrBeforeFiscalPeriodAndYear => "in-or-before-fiscal-period-and-year"
  | inOrAfterFiscalPeriodAndYear => "in-or-after-fiscal-period-and-year"
  | beginsWith => "begins-with"
  | notBeginWith => "not-begin-with"
  | endsWith => "ends-with"
  | notEndWith => "not-end-with"
  | under => "under"
  | eqOrUnder => "eq-or-under"
  | notUnder => "not-under"
  | above => "above"
  | eqOrAbove => "eq-or-above"
  | containValues => "contain-values"
  | notContainValues => "not-contain-values"

/-- A token without its hyphens. -/
def compact (s : String) : List Char :=
  s.toList.filter (· != '-')

/-- Tokens are read up to hyphens. -/
def ofToken? (s : String) : Option Operator :=
  all.find? fun op => compact op.token == compact s

/-- The operator that holds exactly where this one does not, if there is one. -/
def inverse? : Operator → Option Operator
  | eq => some .ne
  | ne => some .eq
  | lt => some .ge
  | le => some .gt
  | gt => some .le
  | ge => some .lt
  | isNull => some .isNotNull
  | isNotNull => some .isNull
  | inList => some .notInList
  | notInList => some .inList
  | beginsWith => some .notBeginWith
  | notBeginWith => some .beginsWith
  | endsWith => some .notEndWith
  | notEndWith => some .endsWith
  | between => some .notBetween
  | notBetween => some .between
  | containValues => some .notContainValues
  | notContainValues => some .containValues
  | like => some .notLike
  | notLike => some .like
  | under => some .notUnder
  | notUnder => some .under
  | _ => none

end Operator

end FetchOData.Query
