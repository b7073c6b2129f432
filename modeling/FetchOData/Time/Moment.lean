import FetchOData.Time.Date
import FetchOData.Text.Scan

namespace FetchOData.Time
open Text

/-- A time of day. Second 60 is a leap second. -/
structure Clock where
  hour : Nat
  minute : Nat
  second : Nat
  nanosecond : Nat
  hour_lt : hour < 24
  minute_lt : minute < 60
  second_le : second ≤ 60
deriving DecidableEq, Repr

/-- How far a local time is ahead of UTC, always less than a day. -/
structure Offset where
  minutes : Int
  minutes_mem : -1440 < minutes ∧ minutes < 1440
deriving DecidableEq, Repr

/-- A local date and time. -/
structure Moment where
  date : Date
  clock : Clock
  offset : Offset
deriving DecidableEq, Repr

namespace Clock

def midnight : Clock := ⟨0, 0, 0, 0, by decide, by decide, by decide⟩

def ofParts? (hour minute second nanosecond : Nat) : Option Clock :=
  if h : hour < 24 ∧ minute < 60 ∧ second ≤ 60 then
    some ⟨hour, minute, second, nanosecond, h.1, h.2.1, h.2.2⟩
  else none

/-- The minute of the day. -/
def minutes (c : Clock) : Nat :=
  60 * c.hour + c.minute

/-- The same seconds in another minute of the day. -/
def atMinute (c : Clock) (n : Nat) (h : n < 1440) : Clock :=
  { c with hour := n / 60, minute := n % 60, hour_lt := by omega, minute_lt := by omega }

/-- Hours, minutes and seconds; the fraction is dropped. -/
def text (c : Clock) : List Char :=
  padLeft 2 c.hour ++ ':' :: padLeft 2 c.minute ++ ':' :: padLeft 2 c.second

end Clock

namespace Offset

def zero : Offset := ⟨0, by decide⟩

/-- Hours and minutes ahead of UTC or behind it. -/
def ofParts? (ahead : Bool) (hours minutes : Nat) : Option Offset :=
  if h : hours < 24 ∧ minutes < 60 then
    if ahead then some ⟨60 * hours + minutes, by omega⟩
    else some ⟨-(60 * hours + minutes), by omega⟩
  else none

end Offset

namespace Moment

/-- Offsets are shorter than a day, so the UTC date is the local one or a neighbour of it. -/
def utc (m : Moment) : Date × Clock :=
  let n : Int := m.clock.minutes - m.offset.minutes
  have bounds : -1440 < n ∧ n < 2880 := by
    have := m.offset.minutes_mem
    have := m.clock.hour_lt
    have := m.clock.minute_lt
    simp only [n, Clock.minutes]
    omega
  if h : n < 0 then (m.date.prev, m.clock.atMinute (n + 1440).toNat (by omega))
  else if h : n < 1440 then (m.date, m.clock.atMinute n.toNat (by omega))
  else (m.date.next, m.clock.atMinute (n - 1440).toNat (by omega))

/-- A moment at local midnight is written as the local date, every other one in UTC. -/
def text (m : Moment) : String :=
  if m.clock = .midnight then String.ofList m.date.text
  else
    let (date, clock) := m.utc
    String.ofList (date.text ++ 'T' :: clock.text ++ ['Z'])

/-- A fraction of a second in nanoseconds. Digits after the ninth are dropped. -/
def fraction : Scan Nat := do
  if ← Scan.skip? '.' then
    let ds ← Scan.digits
    let kept := ds.take 9
    return Number.ofDigits kept * Nat.pow 10 (9 - kept.length)
  else return 0

/-- A UTC offset: the letter Z, or a sign with hours and minutes. -/
def zone : Scan Offset := do
  match ← Scan.oneOf ['Z', 'z', '+', '-', '−'] with
  | 'Z' | 'z' => return .zero
  | sign =>
    let hours ← Scan.exactly 2
    Scan.char ':'
    let minutes ← Scan.exactly 2
    Offset.ofParts? (sign == '+') hours minutes

/-- The timestamps of internet protocols: every field has its full width and an offset is
given. -/
def timestamp : Scan Moment := do
  let year ← Scan.exactly 4
  Scan.char '-'
  let month ← Scan.exactly 2
  Scan.char '-'
  let day ← Scan.exactly 2
  let _ ← Scan.oneOf ['T', 't', ' ']
  let hour ← Scan.exactly 2
  Scan.char ':'
  let minute ← Scan.exactly 2
  Scan.char ':'
  let second ← Scan.exactly 2
  let nanosecond ← fraction
  let offset ← zone
  Scan.finish
  let date ← Date.ofYearMonthDay? year month day
  let clock ← Clock.ofParts? hour minute second nanosecond
  return ⟨date, clock, offset⟩

/-- A number that blanks may precede. -/
def field (width : Nat) : Scan Nat := do
  Scan.blanks
  Scan.upTo width

/-- A year of up to four digits, or of any number of digits after a sign. -/
def yearField : Scan Int := do
  Scan.blanks
  if ← Scan.skip? '-' then return -(Number.ofDigits (← Scan.digits) : Int)
  else if ← Scan.skip? '+' then return Number.ofDigits (← Scan.digits)
  else return ← Scan.upTo 4

def dateField : Scan Date := do
  let year ← yearField
  Scan.char '-'
  let month ← field 2
  Scan.char '-'
  let day ← field 2
  Scan.require (-262143 ≤ year && year ≤ 262142)
  Date.ofYearMonthDay? year month day

/-- Hours and minutes, with seconds and a fraction if they are wanted. -/
def clockField (seconds : Bool) : Scan Clock := do
  let hour ← field 2
  Scan.char ':'
  let minute ← field 2
  if seconds then
    Scan.char ':'
    let second ← field 2
    let nanosecond ← fraction
    Clock.ofParts? hour minute second nanosecond
  else Clock.ofParts? hour minute 0 0

/-- A date and a time of day without an offset, in fields of any width. -/
def loose (separator : Scan Unit) (seconds : Bool) : Scan Moment := do
  let date ← dateField
  separator
  let clock ← clockField seconds
  Scan.finish
  return ⟨date, clock, .zero⟩

def dateOnly : Scan Moment := do
  let date ← dateField
  Scan.finish
  return ⟨date, .midnight, .zero⟩

/-- The accepted forms; the first one that fits decides. -/
def forms : List (Scan Moment) :=
  [timestamp, loose (Scan.char 'T') true, loose Scan.blanks true, loose (Scan.char 'T') false,
    loose Scan.blanks false, dateOnly]

def ofChars? (cs : List Char) : Option Moment :=
  forms.findSome? fun form => (form cs).map Prod.fst

end Moment

end FetchOData.Time
