import FetchOData.Number.Digit

namespace FetchOData.Time

def isLeapYear (year : Int) : Bool :=
  year % 4 == 0 && (year % 100 != 0 || year % 400 == 0)

def monthLength (year : Int) (month : Nat) : Nat :=
  match month with
  | 2 => if isLeapYear year then 29 else 28
  | 4 | 6 | 9 | 11 => 30
  | _ => 31

theorem monthLength_pos (year : Int) (month : Nat) : 1 ≤ monthLength year month := by
  unfold monthLength
  repeat' split
  all_goals decide

/-- A day of the proleptic Gregorian calendar. Year zero is the year before year one. -/
structure Date where
  year : Int
  month : Nat
  day : Nat
  month_mem : 1 ≤ month ∧ month ≤ 12
  day_mem : 1 ≤ day ∧ day ≤ monthLength year month
deriving DecidableEq, Repr

namespace Date

def ofYearMonthDay? (year : Int) (month day : Nat) : Option Date :=
  if hm : 1 ≤ month ∧ month ≤ 12 then
    if hd : 1 ≤ day ∧ day ≤ monthLength year month then some ⟨year, month, day, hm, hd⟩ else none
  else none

/-- The day after. -/
def next (d : Date) : Date :=
  if h : d.day + 1 ≤ monthLength d.year d.month then
    { d with day := d.day + 1, day_mem := ⟨by omega, h⟩ }
  else if h : d.month + 1 ≤ 12 then
    ⟨d.year, d.month + 1, 1, ⟨by omega, h⟩, ⟨by omega, monthLength_pos ..⟩⟩
  else
    ⟨d.year + 1, 1, 1, by decide, ⟨by omega, monthLength_pos ..⟩⟩

/-- The day before. -/
def prev (d : Date) : Date :=
  if h : 1 ≤ d.day - 1 then
    { d with day := d.day - 1, day_mem := ⟨h, by have := d.day_mem; omega⟩ }
  else if h : 1 ≤ d.month - 1 then
    ⟨d.year, d.month - 1, monthLength d.year (d.month - 1), ⟨h, by have := d.month_mem; omega⟩,
      ⟨monthLength_pos .., by omega⟩⟩
  else
    ⟨d.year - 1, 12, monthLength (d.year - 1) 12, by decide, ⟨monthLength_pos .., by omega⟩⟩

end Date

def padLeft (width n : Nat) : List Char :=
  let ds := Number.digits n
  List.replicate (width - ds.length) '0' ++ ds

/-- Four digits, and a sign as well outside of 0 to 9999. -/
def yearText (year : Int) : List Char :=
  if year < 0 then '-' :: padLeft 4 year.natAbs
  else if 9999 < year then '+' :: padLeft 4 year.natAbs
  else padLeft 4 year.natAbs

def Date.text (d : Date) : List Char :=
  yearText d.year ++ '-' :: padLeft 2 d.month ++ '-' :: padLeft 2 d.day

end FetchOData.Time
