import FetchOData.Literal
import FetchOData.Proofs.Calendar
import FetchOData.Proofs.Numerals

namespace FetchOData.Time
open Number

def yearSign (year : Int) : List Char :=
  if year < 0 then ['-'] else if 9999 < year then ['+'] else []

def IsDateText (d : Date) (cs : List Char) : Prop :=
  ∃ year month day, cs = yearSign d.year ++ (year ++ '-' :: (month ++ '-' :: day)) ∧
    IsNumeral 4 d.year.natAbs year ∧ IsNumeral 2 d.month month ∧ IsNumeral 2 d.day day

def IsTimestamp (d : Date) (c : Clock) (cs : List Char) : Prop :=
  ∃ date hour minute second,
    cs = date ++ 'T' :: (hour ++ ':' :: (minute ++ ':' :: (second ++ ['Z']))) ∧
    IsDateText d date ∧ IsNumeral 2 c.hour hour ∧ IsNumeral 2 c.minute minute ∧
    IsNumeral 2 c.second second

theorem yearText_eq (year : Int) : yearText year = yearSign year ++ padLeft 4 year.natAbs := by
  unfold yearText yearSign
  split
  · rfl
  · split <;> rfl

theorem Date.isDateText (d : Date) : IsDateText d d.text := by
  refine ⟨_, _, _, ?_, isNumeral_padLeft (by decide) _, isNumeral_padLeft (by decide) _,
    isNumeral_padLeft (by decide) _⟩
  simp [Date.text, yearText_eq]

def timestampText (d : Date) (c : Clock) : List Char :=
  d.text ++ 'T' :: (c.text ++ ['Z'])

theorem isTimestamp_text (d : Date) (c : Clock) : IsTimestamp d c (timestampText d c) := by
  refine ⟨_, _, _, _, ?_, d.isDateText, isNumeral_padLeft (by decide) _,
    isNumeral_padLeft (by decide) _, isNumeral_padLeft (by decide) _⟩
  simp [timestampText, Clock.text]

namespace Moment

theorem text_of_midnight {m : Moment} (h : m.clock = .midnight) :
    m.text = String.ofList m.date.text := by
  simp only [text, h, if_true]

theorem text_of_not_midnight {m : Moment} (h : m.clock ≠ .midnight) :
    m.text = String.ofList (timestampText m.utc.1 m.utc.2) := by
  rw [text, if_neg h]
  simp only [timestampText, List.append_assoc, List.cons_append]

def inUtc (m : Moment) : Moment :=
  ⟨m.utc.1, { m.utc.2 with nanosecond := 0 }, .zero⟩

theorem instant_inUtc (m : Moment) : m.inUtc.instant = m.wholeSecond.instant := by
  obtain ⟨minute, second⟩ := m.minute_utc
  have same : m.inUtc.minute = m.wholeSecond.minute := by
    change 1440 * m.utc.1.number + m.utc.2.minutes - 0 = m.minute
    omega
  simp only [instant, same]
  exact congrArg (fun n => (m.wholeSecond.minute, n, 0)) second

end Moment

end FetchOData.Time

namespace FetchOData.Literal
open Time Text

theorem format_dateTime {value : String} {m : Moment}
    (read : Moment.ofChars? (trim value.toList) = some m) :
    format .dateTime value = .ok m.text := by
  change dateTime value = _
  unfold dateTime
  rw [read]

/-- A moment that is not at local midnight is written as the date and time in UTC of the same
second, its fraction dropped, and no other date and time is at that second. A moment at local
midnight is written as the local date. -/
theorem dateTime_keeps_instant {value : String} {m : Moment}
    (read : Moment.ofChars? (trim value.toList) = some m) :
    (m.clock ≠ .midnight → ∃ u : Moment, u.offset = .zero ∧ u.instant = m.wholeSecond.instant ∧
      (∀ u' : Moment, u'.offset = .zero → u'.instant = m.wholeSecond.instant → u' = u) ∧
      ∃ cs, IsTimestamp u.date u.clock cs ∧ format .dateTime value = .ok (String.ofList cs)) ∧
    (m.clock = .midnight →
      ∃ cs, IsDateText m.date cs ∧ format .dateTime value = .ok (String.ofList cs)) := by
  rw [format_dateTime read]
  constructor
  · intro later
    refine ⟨m.inUtc, rfl, m.instant_inUtc, ?_, ?_⟩
    · intro u' offset instant
      apply Moment.eq_of_instant offset
      rw [instant, m.instant_inUtc]
    · rw [Moment.text_of_not_midnight later]
      exact ⟨_, isTimestamp_text m.utc.1 m.utc.2, rfl⟩
  · intro midnight
    rw [Moment.text_of_midnight midnight]
    exact ⟨_, m.date.isDateText, rfl⟩

/-- A leap second in the last minute of a year, half an hour behind UTC: in UTC it is in the first
hour of the next year. -/
theorem dateTime_keeps_instant_yearEnd :
    ∃ m u : Moment, Moment.ofChars? (trim " 2023-12-31T23:59:60.5-00:30".toList) = some m ∧
      u.offset = .zero ∧ u.instant = m.wholeSecond.instant ∧
      format .dateTime " 2023-12-31T23:59:60.5-00:30" = .ok "2024-01-01T00:29:60Z" := by
  have later : (Moment.ofChars? (trim " 2023-12-31T23:59:60.5-00:30".toList)).map
      (fun m => decide (m.clock = .midnight)) = some false := by
    decide +kernel
  obtain ⟨m, read, clock⟩ := Option.map_eq_some_iff.mp later
  obtain ⟨u, utc, same, _⟩ := (dateTime_keeps_instant read).1 (of_decide_eq_false clock)
  exact ⟨m, u, read, utc, same, rfl⟩

end FetchOData.Literal
