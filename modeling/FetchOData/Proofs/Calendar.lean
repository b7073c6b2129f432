import FetchOData.Time.Moment

namespace FetchOData.Time

/-- The days of the years before a year: a leap day in every fourth of them, in no hundredth, but in
every four hundredth. -/
def daysBeforeYear (year : Int) : Int :=
  365 * year + (year + 3) / 4 - (year + 99) / 100 + (year + 399) / 400

def daysBeforeMonth (year : Int) : Nat → Nat
  | 0 => 0
  | 1 => 0
  | month + 2 => daysBeforeMonth year (month + 1) + monthLength year (month + 1)

def yearLength (year : Int) : Nat :=
  if isLeapYear year then 366 else 365

theorem daysBeforeYear_add_one (year : Int) :
    daysBeforeYear (year + 1) = daysBeforeYear year + yearLength year := by
  unfold daysBeforeYear yearLength
  by_cases leap : isLeapYear year = true
  · simp only [leap, if_true]
    simp only [isLeapYear, Bool.and_eq_true, Bool.or_eq_true, beq_iff_eq, bne_iff_ne] at leap
    omega
  · simp only [leap, Bool.false_eq_true, if_false]
    simp only [isLeapYear, Bool.and_eq_true, Bool.or_eq_true, beq_iff_eq, bne_iff_ne] at leap
    omega

theorem daysBeforeYear_le {year year' : Int} (h : year ≤ year') :
    daysBeforeYear year ≤ daysBeforeYear year' := by
  unfold daysBeforeYear
  omega

theorem daysBeforeMonth_add_one (year : Int) {month : Nat} (h : 1 ≤ month) :
    daysBeforeMonth year (month + 1) = daysBeforeMonth year month + monthLength year month := by
  cases month with
  | zero => omega
  | succ month => rfl

theorem daysBeforeMonth_le (year : Int) {month month' : Nat} (h : month ≤ month') :
    daysBeforeMonth year month ≤ daysBeforeMonth year month' := by
  induction h with
  | refl => exact Nat.le_refl _
  | step _ ih =>
    rename_i m _
    cases m with
    | zero => exact ih
    | succ m =>
      rw [daysBeforeMonth_add_one year (by omega)]
      omega

theorem daysBeforeMonth_thirteen (year : Int) : daysBeforeMonth year 13 = yearLength year := by
  simp only [daysBeforeMonth, monthLength, yearLength]
  split <;> rfl

namespace Date

def number (d : Date) : Int :=
  daysBeforeYear d.year + daysBeforeMonth d.year d.month + (d.day - 1)

theorem number_next (d : Date) : d.next.number = d.number + 1 := by
  have months := d.month_mem
  have days := d.day_mem
  unfold next
  split
  · simp only [number]
    omega
  · have whole := daysBeforeMonth_add_one d.year months.1
    split
    · simp only [number, whole]
      omega
    · -- The last day of December: its month and the ones before it make up the year.
      have december : d.month + 1 = 13 := by omega
      have year := daysBeforeYear_add_one d.year
      rw [december, daysBeforeMonth_thirteen] at whole
      simp only [number, daysBeforeMonth, year]
      omega

theorem number_prev (d : Date) : d.prev.number = d.number - 1 := by
  have months := d.month_mem
  have days := d.day_mem
  unfold prev
  split
  · simp only [number]
    omega
  · split
    · rename_i later
      have whole := daysBeforeMonth_add_one d.year later
      rw [show d.month - 1 + 1 = d.month by omega] at whole
      simp only [number, whole]
      omega
    · have january : d.month = 1 := by omega
      have first : d.day = 1 := by omega
      have year := daysBeforeYear_add_one (d.year - 1)
      have whole := daysBeforeMonth_add_one (d.year - 1) (show 1 ≤ 12 by omega)
      rw [show d.year - 1 + 1 = d.year by omega] at year
      rw [daysBeforeMonth_thirteen] at whole
      simp only [number, january, first, daysBeforeMonth, year] at whole ⊢
      omega

theorem number_lt_of_year_lt {d d' : Date} (h : d.year < d'.year) : d.number < d'.number := by
  have days := d.day_mem
  have days' := d'.day_mem
  have month := daysBeforeMonth_add_one d.year d.month_mem.1
  have rest := daysBeforeMonth_le d.year (show d.month + 1 ≤ 13 by have := d.month_mem; omega)
  have year := daysBeforeYear_add_one d.year
  have years := daysBeforeYear_le (show d.year + 1 ≤ d'.year by omega)
  rw [daysBeforeMonth_thirteen] at rest
  unfold number
  omega

theorem number_lt_of_month_lt {d d' : Date} (same : d.year = d'.year) (h : d.month < d'.month) :
    d.number < d'.number := by
  have days := d.day_mem
  have days' := d'.day_mem
  have month := daysBeforeMonth_add_one d.year d.month_mem.1
  have rest := daysBeforeMonth_le d.year (show d.month + 1 ≤ d'.month by omega)
  unfold number
  rw [← same]
  omega

/-- No two days have one number. -/
theorem number_inj {d d' : Date} (h : d.number = d'.number) : d = d' := by
  have year : d.year = d'.year := by
    rcases Int.lt_trichotomy d.year d'.year with before | same | after
    · have := number_lt_of_year_lt before
      omega
    · exact same
    · have := number_lt_of_year_lt after
      omega
  have month : d.month = d'.month := by
    rcases Nat.lt_trichotomy d.month d'.month with before | same | after
    · have := number_lt_of_month_lt year before
      omega
    · exact same
    · have := number_lt_of_month_lt year.symm after
      omega
  have day : d.day = d'.day := by
    have days := d.day_mem
    have days' := d'.day_mem
    simp only [number, year, month] at h
    omega
  cases d
  cases d'
  simp only at year month day
  subst year month day
  rfl

end Date

example : (Date.ofYearMonthDay? 1970 1 1).map Date.number = some 719528 := by decide

namespace Clock

theorem minutes_lt (c : Clock) : c.minutes < 1440 := by
  have hour := c.hour_lt
  have minute := c.minute_lt
  unfold minutes
  omega

theorem eq_of_minutes {c c' : Clock} (minutes : c.minutes = c'.minutes)
    (second : c.second = c'.second) (nanosecond : c.nanosecond = c'.nanosecond) : c = c' := by
  have hours := c.minute_lt
  have hours' := c'.minute_lt
  unfold Clock.minutes at minutes
  have hour : c.hour = c'.hour := by omega
  have minute : c.minute = c'.minute := by omega
  cases c
  cases c'
  simp only at hour minute second nanosecond
  subst hour minute second nanosecond
  rfl

theorem minutes_atMinute (c : Clock) (n : Nat) (h : n < 1440) : (c.atMinute n h).minutes = n := by
  simp only [minutes, atMinute]
  omega

end Clock

namespace Moment

def minute (m : Moment) : Int :=
  1440 * m.date.number + m.clock.minutes - m.offset.minutes

/-- When a moment is: its minute, and the second and the fraction within that minute. A leap second
is the last of its minute and not the first of the next. -/
def instant (m : Moment) : Int × Nat × Nat :=
  (m.minute, m.clock.second, m.clock.nanosecond)

def wholeSecond (m : Moment) : Moment :=
  { m with clock := { m.clock with nanosecond := 0 } }

/-- The UTC date and time are at the minute of the moment, and in the same second of it. -/
theorem minute_utc (m : Moment) :
    1440 * m.utc.1.number + m.utc.2.minutes = m.minute ∧ m.utc.2.second = m.clock.second := by
  have within := m.clock.minutes_lt
  have day := m.offset.minutes_mem
  unfold utc
  dsimp only
  split
  · refine ⟨?_, rfl⟩
    simp only [Clock.minutes_atMinute, Date.number_prev, minute]
    omega
  · split
    · refine ⟨?_, rfl⟩
      simp only [Clock.minutes_atMinute, minute]
      omega
    · refine ⟨?_, rfl⟩
      simp only [Clock.minutes_atMinute, Date.number_next, minute]
      omega

/-- With one offset, a moment has one date and one time of day. -/
theorem eq_of_instant {m m' : Moment} (offset : m.offset = m'.offset)
    (h : m.instant = m'.instant) : m = m' := by
  simp only [instant, minute, offset, Prod.mk.injEq] at h
  obtain ⟨minute, second, nanosecond⟩ := h
  have within := m.clock.minutes_lt
  have within' := m'.clock.minutes_lt
  have date : m.date = m'.date := Date.number_inj (by omega)
  have clock : m.clock = m'.clock := by
    apply Clock.eq_of_minutes _ second nanosecond
    rw [date] at minute
    omega
  cases m
  cases m'
  simp only at date clock offset
  subst date clock offset
  rfl

end Moment

end FetchOData.Time
