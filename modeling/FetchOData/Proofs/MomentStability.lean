import FetchOData.Proofs.FormDecoding
import FetchOData.Proofs.MomentReading

namespace FetchOData

namespace Text

/-- A plus sign in front is read as a space. -/
theorem decode?_plus {cs : List Char} (h : ∀ c ∈ cs, c ≠ '+' ∧ c ≠ '%') :
    decode? (String.ofList ('+' :: cs)) = some (String.ofList (' ' :: cs)) := by
  apply decode?_of_formBytes
  have space : String.utf8EncodeChar ' ' = [0x20] := by decide
  rw [String.toList_ofList, String.toList_ofList, formBytes, formBytes_of_plain h,
    List.flatMap_cons, space]
  rfl

end Text

namespace Time
open Text

def IsMomentChar (c : Char) : Prop :=
  c.isDigit = true ∨ c ∈ ['-', ':', 'T', 'Z']

theorem IsMomentChar.not_blank {c : Char} (h : IsMomentChar c) : isBlank c = false := by
  rcases h with digit | sign
  · exact Scan.isBlank_of_isDigit digit
  · have : ∀ c ∈ ['-', ':', 'T', 'Z'], isBlank c = false := by decide
    exact this c sign

theorem IsMomentChar.plain {c : Char} (h : IsMomentChar c) : c ≠ '+' ∧ c ≠ '%' := by
  constructor
  · intro same
    rw [same] at h
    exact absurd h (by unfold IsMomentChar; decide)
  · intro same
    rw [same] at h
    exact absurd h (by unfold IsMomentChar; decide)

theorem IsDateText.exists_unsigned {d : Date} {cs : List Char} (h : IsDateText d cs) :
    ∃ body, cs = yearSign d.year ++ body ∧ ∀ c ∈ body, IsMomentChar c := by
  obtain ⟨year, month, day, rfl, hyear, hmonth, hday⟩ := h
  refine ⟨_, rfl, ?_⟩
  intro c hc
  simp only [List.mem_append, List.mem_cons] at hc
  rcases hc with hc | rfl | hc | rfl | hc
  · exact Or.inl (hyear.digits c hc)
  · exact Or.inr (by simp)
  · exact Or.inl (hmonth.digits c hc)
  · exact Or.inr (by simp)
  · exact Or.inl (hday.digits c hc)

theorem IsTimestamp.exists_unsigned {d : Date} {k : Clock} {cs : List Char}
    (h : IsTimestamp d k cs) :
    ∃ body, cs = yearSign d.year ++ body ∧ ∀ c ∈ body, IsMomentChar c := by
  obtain ⟨date, hour, minute, second, rfl, hdate, hhour, hminute, hsecond⟩ := h
  obtain ⟨body, rfl, chars⟩ := hdate.exists_unsigned
  refine ⟨_, List.append_assoc _ _ _, ?_⟩
  intro c hc
  simp only [List.mem_append, List.mem_cons, List.not_mem_nil, or_false] at hc
  rcases hc with hc | rfl | hc | rfl | hc | rfl | hc | rfl
  · exact chars c hc
  · exact Or.inr (by simp)
  · exact Or.inl (hhour.digits c hc)
  · exact Or.inr (by simp)
  · exact Or.inl (hminute.digits c hc)
  · exact Or.inr (by simp)
  · exact Or.inl (hsecond.digits c hc)
  · exact Or.inr (by simp)

namespace Moment

def writtenDate (m : Moment) : Date :=
  if m.clock = .midnight then m.date else m.utc.1

theorem timestampText_inUtc (m : Moment) :
    timestampText m.inUtc.date m.inUtc.clock = timestampText m.utc.1 m.utc.2 := by
  simp only [inUtc, timestampText, Clock.text]

theorem inUtc_eq {m : Moment} (utc : m.offset = .zero) : m.inUtc = m.wholeSecond :=
  eq_of_instant utc.symm m.instant_inUtc

theorem wholeSecond_eq {m : Moment} (whole : m.clock.nanosecond = 0) : m.wholeSecond = m := by
  obtain ⟨date, clock, offset⟩ := m
  cases clock
  simp only at whole
  simp only [wholeSecond, whole]

/-- A moment in UTC, of a whole second, is read as it was written. -/
theorem ofChars?_text {m : Moment} (utc : m.offset = .zero) (whole : m.clock.nanosecond = 0)
    (years : m.clock = .midnight ∧ m.date.InCalendar ∨ 0 ≤ m.date.year ∧ m.date.year ≤ 9999) :
    ofChars? m.text.toList = some m := by
  have seconds := wholeSecond_eq whole
  by_cases midnight : m.clock = .midnight
  · have calendar : m.date.InCalendar := by
      unfold Date.InCalendar at years ⊢
      omega
    rw [text_of_midnight midnight, String.toList_ofList, ofChars?_dateText calendar, ← midnight,
      ← utc]
  · have short : 0 ≤ m.date.year ∧ m.date.year ≤ 9999 := by
      simpa [midnight] using years
    have same : m.inUtc = m := (inUtc_eq utc).trans seconds
    have text : m.text = String.ofList (timestampText m.date m.clock) := by
      rw [text_of_not_midnight midnight, ← timestampText_inUtc, same]
    rw [text, String.toList_ofList, ofChars?_timestampText short, ← utc]
    exact congrArg some seconds

/-- Behind the sign of the year there are only characters that stand for themselves. -/
theorem exists_unsigned (m : Moment) :
    ∃ body, m.text.toList = yearSign m.writtenDate.year ++ body ∧ ∀ c ∈ body, IsMomentChar c := by
  by_cases midnight : m.clock = .midnight
  · rw [text_of_midnight midnight, String.toList_ofList, writtenDate, if_pos midnight]
    exact m.date.isDateText.exists_unsigned
  · rw [text_of_not_midnight midnight, String.toList_ofList, writtenDate, if_neg midnight]
    exact (isTimestamp_text m.utc.1 m.utc.2).exists_unsigned

end Moment

theorem mem_yearSign_iff (year : Int) : '+' ∈ yearSign year ↔ 9999 < year := by
  unfold yearSign
  by_cases negative : year < 0
  · simp [negative]
    omega
  · by_cases long : 9999 < year
    · simp [negative, long]
    · simp [negative, long]

theorem mem_yearSign {year : Int} {c : Char} (h : c ∈ yearSign year) : c = '-' ∨ c = '+' := by
  unfold yearSign at h
  split at h
  · exact Or.inl (List.mem_singleton.mp h)
  · split at h
    · exact Or.inr (List.mem_singleton.mp h)
    · cases h

namespace Moment

theorem mem_text {m : Moment} {c : Char} (h : c ∈ m.text.toList) : IsMomentChar c ∨ c = '+' := by
  obtain ⟨body, text, chars⟩ := m.exists_unsigned
  rw [text, List.mem_append] at h
  rcases h with sign | hc
  · rcases mem_yearSign sign with rfl | plus
    · exact Or.inl (Or.inr (by simp))
    · exact Or.inr plus
  · exact Or.inl (chars c hc)

theorem plus_mem_text_iff (m : Moment) : '+' ∈ m.text.toList ↔ 9999 < m.writtenDate.year := by
  obtain ⟨body, text, chars⟩ := m.exists_unsigned
  have unsigned : '+' ∉ body := fun plus => (chars '+' plus).plain.1 rfl
  rw [text, List.mem_append, mem_yearSign_iff]
  simp [unsigned]

theorem trim_text (m : Moment) : trim m.text.toList = m.text.toList := by
  apply trim_of_no_blanks
  intro c hc
  rcases mem_text hc with char | rfl
  · exact char.not_blank
  · decide

theorem decode?_text_iff (m : Moment) :
    decode? m.text = some m.text ↔ m.writtenDate.year ≤ 9999 := by
  constructor
  · intro same
    apply Int.not_lt.mp
    intro long
    obtain ⟨body, text, chars⟩ := m.exists_unsigned
    have sign : yearSign m.writtenDate.year = ['+'] := by
      unfold yearSign
      rw [if_neg (by omega), if_pos (by omega)]
    have plus : m.text = String.ofList ('+' :: body) := by
      apply String.toList_injective
      rw [text, sign, String.toList_ofList]
      rfl
    rw [plus, decode?_plus fun c hc => (chars c hc).plain] at same
    have chars := String.ofList_injective (Option.some.inj same)
    exact absurd (List.cons.inj chars).1 (by decide)
  · intro short
    apply decode?_of_formBytes
    apply formBytes_of_plain
    intro c hc
    rcases mem_text hc with char | rfl
    · exact char.plain
    · have := m.plus_mem_text_iff.mp hc
      omega

/-- The moment that the literal of a moment is read as, where it is read. -/
def reread (m : Moment) : Moment :=
  if m.clock = .midnight then ⟨m.date, .midnight, .zero⟩ else m.inUtc

def Rereadable (m : Moment) : Prop :=
  m.clock = .midnight ∨ 0 ≤ m.writtenDate.year ∧ m.writtenDate.year ≤ 9999

theorem ofChars?_text_iff {m : Moment} (calendar : m.date.InCalendar) (l : Moment) :
    ofChars? m.text.toList = some l ↔ m.Rereadable ∧ l = m.reread := by
  by_cases midnight : m.clock = .midnight
  · rw [text_of_midnight midnight, String.toList_ofList, ofChars?_dateText calendar]
    simp [Rereadable, reread, midnight, eq_comm]
  · rw [text_of_not_midnight midnight, String.toList_ofList]
    by_cases short : 0 ≤ m.utc.1.year ∧ m.utc.1.year ≤ 9999
    · rw [ofChars?_timestampText short]
      simp [Rereadable, reread, writtenDate, midnight, short, inUtc, eq_comm]
    · rw [ofChars?_timestampText_of_signed (by omega)]
      have signed : ¬m.Rereadable := by
        simpa only [Rereadable, writtenDate, midnight, if_false, false_or] using short
      simp [signed]

theorem ofChars?_text_reread {m : Moment} (calendar : m.date.InCalendar) (again : m.Rereadable) :
    ofChars? m.reread.text.toList = some m.reread := by
  by_cases midnight : m.clock = .midnight
  · rw [reread, if_pos midnight]
    exact ofChars?_text rfl rfl (Or.inl ⟨rfl, calendar⟩)
  · rw [reread, if_neg midnight]
    apply ofChars?_text rfl rfl
    right
    simpa [Rereadable, writtenDate, midnight, inUtc] using again

theorem date_reread (m : Moment) : m.reread.date = m.writtenDate := by
  unfold reread writtenDate
  split
  · rfl
  · rfl

theorem offset_reread (m : Moment) : m.reread.offset = .zero := by
  unfold reread
  split
  · rfl
  · rfl

theorem instant_reread {m : Moment} (h : m.clock ≠ .midnight) :
    m.reread.instant = m.wholeSecond.instant := by
  rw [reread, if_neg h, instant_inUtc]

end Moment

end Time

namespace Literal
open Time Text

theorem format_dateTime_iff {value s : String} :
    format .dateTime value = .ok s ↔
      ∃ m, Moment.ofChars? (trim value.toList) = some m ∧ s = m.text := by
  change dateTime value = .ok s ↔ _
  unfold dateTime
  cases Moment.ofChars? (trim value.toList) with
  | none => simp
  | some m => simp [eq_comm]

/-- The literal of a moment has a plus sign if it is written with a year of more than four digits,
and only then form-decoding changes it. It is accepted as a value again if it is a date or has a
year of four digits without a sign. The literal that is written then is for the same moment, in UTC,
and only a moment at local midnight is not the one that the value had. -/
theorem dateTime_literal_reusable_iff {value s : String}
    (accepted : format .dateTime value = .ok s) :
    ∃ m, Moment.ofChars? (trim value.toList) = some m ∧
      (∀ c ∈ s.toList, IsMomentChar c ∨ c = '+') ∧
      ('+' ∈ s.toList ↔ 9999 < m.writtenDate.year) ∧
      (decode? s = some s ↔ m.writtenDate.year ≤ 9999) ∧
      ((∃ s', format .dateTime s = .ok s') ↔
        m.clock = .midnight ∨ 0 ≤ m.writtenDate.year ∧ m.writtenDate.year ≤ 9999) ∧
      ∀ s', format .dateTime s = .ok s' → ∃ l : Moment,
        Moment.ofChars? (trim s.toList) = some l ∧ Moment.ofChars? (trim s'.toList) = some l ∧
        l.offset = .zero ∧ l.date = m.writtenDate ∧
        (m.clock ≠ .midnight → l.instant = m.wholeSecond.instant) := by
  obtain ⟨m, read, rfl⟩ := format_dateTime_iff.mp accepted
  have calendar := inCalendar_of_ofChars? read
  refine ⟨m, read, fun _ => Moment.mem_text, m.plus_mem_text_iff, m.decode?_text_iff, ?_, ?_⟩
  · constructor
    · intro ⟨s', again⟩
      obtain ⟨l, reading, _⟩ := format_dateTime_iff.mp again
      rw [m.trim_text, Moment.ofChars?_text_iff calendar] at reading
      exact reading.1
    · intro again
      refine ⟨m.reread.text, format_dateTime_iff.mpr ⟨m.reread, ?_, rfl⟩⟩
      rw [m.trim_text, Moment.ofChars?_text_iff calendar]
      exact ⟨again, rfl⟩
  · intro s' again
    obtain ⟨l, reading, rfl⟩ := format_dateTime_iff.mp again
    rw [m.trim_text] at reading ⊢
    obtain ⟨rereadable, same⟩ := (Moment.ofChars?_text_iff calendar l).mp reading
    refine ⟨l, reading, ?_, ?_, ?_, ?_⟩
    · rw [l.trim_text, same]
      exact Moment.ofChars?_text_reread calendar rereadable
    · rw [same, m.offset_reread]
    · rw [same, m.date_reread]
    · intro later
      rw [same, Moment.instant_reread later]

/-- Half an hour before the year 10000, written an hour behind UTC: in UTC its year has five digits,
so its literal is no value any more. -/
theorem dateTime_literal_reusable_iff_longYear :
    format .dateTime "9999-12-31T23:30:00-01:00" = .ok "+10000-01-01T00:30:00Z" ∧
      ¬∃ s', format .dateTime "+10000-01-01T00:30:00Z" = .ok s' := by
  have written : format .dateTime "9999-12-31T23:30:00-01:00" = .ok "+10000-01-01T00:30:00Z" := by
    rfl
  refine ⟨written, ?_⟩
  obtain ⟨m, read, _, plus, _, again, _⟩ := dateTime_literal_reusable_iff written
  have long := plus.mp (by decide)
  have later : (Moment.ofChars? (trim "9999-12-31T23:30:00-01:00".toList)).all
      (·.clock ≠ .midnight) = true := by
    decide +kernel
  rw [read, Option.all_some, decide_eq_true_eq] at later
  intro h
  rcases again.mp h with midnight | short
  · exact later midnight
  · omega

end Literal

end FetchOData
