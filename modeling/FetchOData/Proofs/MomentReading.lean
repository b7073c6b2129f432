import FetchOData.Proofs.MomentText

namespace FetchOData

namespace Text.Scan

section Steps
variable {p : Scan α} {f : α → Scan β} {cs rest : List Char}

/-- The first of two scans reads its part, and the second goes on from there. -/
theorem step {r : Option (β × List Char)} (h : p cs = some (a, rest)) (next : f a rest = r) :
    (p >>= f) cs = r := by
  change (p cs).bind (fun r => f r.1 r.2) = _
  rw [h]
  exact next

theorem bind_of_none (h : p cs = none) : (p >>= f) cs = none := by
  change (p cs).bind (fun r => f r.1 r.2) = _
  rw [h]
  rfl

theorem lift_of_some {x : Option α} (h : x = some a) (cs : List Char) :
    (liftM x : Scan α) cs = some (a, cs) := by
  rw [h]
  rfl

end Steps

def Gives (p : Scan α) (P : α → Prop) : Prop :=
  ∀ cs a rest, p cs = some (a, rest) → P a

theorem Gives.bind {p : Scan α} {f : α → Scan β} {P : α → Prop} {Q : β → Prop} (h : p.Gives P)
    (next : ∀ a, P a → (f a).Gives Q) : Scan.Gives (p >>= f) Q := by
  intro cs b rest read
  obtain ⟨⟨a, mid⟩, first, second⟩ := Option.bind_eq_some_iff.mp read
  exact next a (h cs a mid first) mid b rest second

/-- A scan that does not matter to what is read in the end. -/
theorem gives_of_next {p : Scan α} {f : α → Scan β} {Q : β → Prop} (next : ∀ a, (f a).Gives Q) :
    Scan.Gives (p >>= f) Q := by
  intro cs b rest read
  obtain ⟨⟨a, mid⟩, _, second⟩ := Option.bind_eq_some_iff.mp read
  exact next a mid b rest second

theorem gives_pure {a : α} {P : α → Prop} (h : P a) : Scan.Gives (pure a) P := by
  intro cs b rest read
  cases read
  exact h

theorem gives_lift {x : Option α} {P : α → Prop} (h : ∀ a, x = some a → P a) :
    Scan.Gives (liftM x) P := by
  intro cs a rest read
  cases x with
  | none => cases read
  | some b =>
    cases read
    exact h a rfl

theorem gives_require (condition : Bool) :
    (Scan.require condition).Gives fun _ => condition = true := by
  intro cs a rest read
  unfold Scan.require at read
  split at read
  · assumption
  · cases read

theorem gives_exactly (width : Nat) : (Scan.exactly width).Gives (· < 10 ^ width) := by
  intro cs n rest read
  unfold Scan.exactly at read
  dsimp only at read
  split at read
  · rename_i whole
    simp only [Bool.and_eq_true, decide_eq_true_eq, List.all_eq_true] at whole
    cases read
    have bound := Number.ofDigits_lt whole.2
    rwa [whole.1] at bound
  · cases read

theorem char_cons (c : Char) (cs : List Char) : Scan.char c (c :: cs) = some ((), cs) := by
  simp [Scan.char]

theorem blanks_cons {c : Char} (h : isBlank c = false) (cs : List Char) :
    Scan.blanks (c :: cs) = some ((), c :: cs) := by
  simp [Scan.blanks, dropBlanks, h]

theorem skip?_cons (c : Char) (cs : List Char) : Scan.skip? c (c :: cs) = some (true, cs) := by
  simp [Scan.skip?]

theorem skip?_of_ne {c d : Char} (h : d ≠ c) (cs : List Char) :
    Scan.skip? c (d :: cs) = some (false, d :: cs) := by
  simp [Scan.skip?, h]

theorem isBlank_of_isDigit {c : Char} (h : c.isDigit = true) : isBlank c = false := by
  simp only [Char.isDigit, UInt32.le_iff_toNat_le, Bool.and_eq_true, decide_eq_true_eq] at h
  have lower : 48 ≤ c.toNat := h.1
  have upper : c.toNat ≤ 57 := h.2
  simp [isBlank]
  omega

end Text.Scan

namespace Time
open Text Number

/-- The first digit of a padded numeral. -/
theorem exists_cons_padLeft (width n : Nat) :
    ∃ c cs, padLeft width n = c :: cs ∧ c.isDigit = true := by
  cases h : padLeft width n with
  | nil =>
    have digits : Nat.toDigits 10 n ≠ [] := Nat.toDigits_ne_nil
    simp [padLeft, Number.digits, digits] at h
  | cons c cs =>
    have digit : c.isDigit = true := digits_padLeft (h ▸ List.mem_cons_self)
    exact ⟨c, cs, rfl, digit⟩

theorem exactly_padLeft {width n : Nat} (pos : 0 < width) (small : n < 10 ^ width)
    (rest : List Char) : Scan.exactly width (padLeft width n ++ rest) = some (n, rest) := by
  rw [Scan.exactly_append (fun _ => digits_padLeft) (length_padLeft pos small), ofDigits_padLeft]

theorem blanks_padLeft (width n : Nat) (rest : List Char) :
    Scan.blanks (padLeft width n ++ rest) = some ((), padLeft width n ++ rest) := by
  obtain ⟨c, cs, split, digit⟩ := exists_cons_padLeft width n
  rw [split]
  exact Scan.blanks_cons (Scan.isBlank_of_isDigit digit) _

theorem field_padLeft {n : Nat} (small : n < 100) (rest : List Char) :
    Moment.field 2 (padLeft 2 n ++ rest) = some (n, rest) := by
  refine Scan.step (blanks_padLeft 2 n rest) ?_
  rw [Scan.upTo_append (fun _ => digits_padLeft) (by decide) (length_padLeft (by decide) small),
    ofDigits_padLeft]

theorem skip?_padLeft {sign : Char} (h : sign.isDigit = false) (width n : Nat) (rest : List Char) :
    Scan.skip? sign (padLeft width n ++ rest) = some (false, padLeft width n ++ rest) := by
  obtain ⟨c, cs, split, digit⟩ := exists_cons_padLeft width n
  rw [split]
  apply Scan.skip?_of_ne
  intro same
  rw [same, h] at digit
  cases digit

theorem digits_padLeft_append (width n : Nat) (rest : List Char) :
    Scan.digits (padLeft width n ++ '-' :: rest) = some (padLeft width n, '-' :: rest) := by
  obtain ⟨c, cs, split, _⟩ := exists_cons_padLeft width n
  apply Scan.digits_append
  · intro c
    exact digits_padLeft
  · rw [split]
    simp
  · simp

theorem yearField_text (year : Int) (rest : List Char) :
    Moment.yearField (yearText year ++ '-' :: rest) = some (year, '-' :: rest) := by
  have value := ofDigits_padLeft 4 year.natAbs
  unfold yearText
  by_cases before : year < 0
  · rw [if_pos before]
    refine Scan.step (Scan.blanks_cons (by decide) _) ?_
    refine Scan.step (Scan.skip?_cons _ _) ?_
    rw [if_pos rfl]
    refine Scan.step (digits_padLeft_append ..) ?_
    rw [value, show -(year.natAbs : Int) = year by omega]
    rfl
  · rw [if_neg before]
    by_cases after : 9999 < year
    · rw [if_pos after]
      refine Scan.step (Scan.blanks_cons (by decide) _) ?_
      refine Scan.step (Scan.skip?_of_ne (by decide) _) ?_
      rw [if_neg (by decide)]
      refine Scan.step (Scan.skip?_cons _ _) ?_
      rw [if_pos rfl]
      refine Scan.step (digits_padLeft_append ..) ?_
      rw [value, show (year.natAbs : Int) = year by omega]
      rfl
    · rw [if_neg after]
      have full : (padLeft 4 year.natAbs).length = 4 := length_padLeft (by decide) (by omega)
      refine Scan.step (blanks_padLeft ..) ?_
      refine Scan.step (skip?_padLeft (by decide) ..) ?_
      rw [if_neg (by decide)]
      refine Scan.step (skip?_padLeft (by decide) ..) ?_
      rw [if_neg (by decide)]
      refine Scan.step (Scan.upTo_append (fun _ => digits_padLeft) (by decide) full) ?_
      rw [value, show (year.natAbs : Int) = year by omega]
      rfl

theorem Date.ofYearMonthDay?_self (d : Date) :
    Date.ofYearMonthDay? d.year d.month d.day = some d := by
  simp [ofYearMonthDay?, d.month_mem, d.day_mem]

theorem Date.month_lt (d : Date) : d.month < 100 := by
  have := d.month_mem
  omega

theorem Date.day_lt (d : Date) : d.day < 100 := by
  have days := d.day_mem
  have short : monthLength d.year d.month ≤ 31 := by
    unfold monthLength
    repeat' split
    all_goals decide
  omega

def Date.InCalendar (d : Date) : Prop :=
  -262143 ≤ d.year ∧ d.year ≤ 262142

/-- A date as it is written is read as that date, if its year is one of the calendar. -/
theorem dateField_text (d : Date) (rest : List Char) :
    Moment.dateField (d.text ++ rest) =
      if -262143 ≤ d.year && d.year ≤ 262142 then some (d, rest) else none := by
  rw [show d.text ++ rest = yearText d.year ++ '-' :: (padLeft 2 d.month ++
    '-' :: (padLeft 2 d.day ++ rest)) by simp [Date.text]]
  refine Scan.step (yearField_text ..) ?_
  refine Scan.step (Scan.char_cons ..) ?_
  refine Scan.step (field_padLeft d.month_lt _) ?_
  refine Scan.step (Scan.char_cons ..) ?_
  refine Scan.step (field_padLeft d.day_lt _) ?_
  unfold Scan.require
  split
  · refine Scan.step rfl ?_
    exact Scan.lift_of_some d.ofYearMonthDay?_self rest
  · exact Scan.bind_of_none rfl

/-- What goes wrong behind a date goes wrong with the date before it. -/
theorem dateField_bind_of_none {f : Date → Scan α} {d : Date} {rest : List Char}
    (h : f d rest = none) : (Moment.dateField >>= f) (d.text ++ rest) = none := by
  have date := dateField_text d rest
  split at date
  · exact Scan.step date h
  · exact Scan.bind_of_none date

/-- A sign is no digit of a year of four. -/
theorem timestamp_of_signed {d : Date} (signed : ¬ (0 ≤ d.year ∧ d.year ≤ 9999))
    (rest : List Char) : Moment.timestamp (d.text ++ rest) = none := by
  have sign : ∃ c cs, yearText d.year = c :: cs ∧ c.isDigit = false := by
    unfold yearText
    by_cases before : d.year < 0
    · rw [if_pos before]
      exact ⟨_, _, rfl, rfl⟩
    · rw [if_neg before, if_pos (by omega)]
      exact ⟨_, _, rfl, rfl⟩
  obtain ⟨c, cs, split, other⟩ := sign
  apply Scan.bind_of_none
  simp [Date.text, split, Scan.exactly, other]

theorem Clock.ofParts?_self (c : Clock) (nanosecond : Nat) :
    Clock.ofParts? c.hour c.minute c.second nanosecond = some { c with nanosecond } := by
  simp [Clock.ofParts?, c.hour_lt, c.minute_lt, c.second_le]

theorem Clock.text_append (c : Clock) (rest : List Char) :
    c.text ++ rest = padLeft 2 c.hour ++ ':' :: (padLeft 2 c.minute ++
      ':' :: (padLeft 2 c.second ++ rest)) := by
  simp [Clock.text]

theorem clockField_text (c : Clock) (rest : List Char) :
    Moment.clockField true (c.text ++ 'Z' :: rest) =
      some ({ c with nanosecond := 0 }, 'Z' :: rest) := by
  have hour := c.hour_lt
  have minute := c.minute_lt
  have second := c.second_le
  rw [c.text_append]
  refine Scan.step (field_padLeft (by omega) _) ?_
  refine Scan.step (Scan.char_cons ..) ?_
  refine Scan.step (field_padLeft (by omega) _) ?_
  rw [if_pos rfl]
  refine Scan.step (Scan.char_cons ..) ?_
  refine Scan.step (field_padLeft (by omega) _) ?_
  have none : Moment.fraction ('Z' :: rest) = some (0, 'Z' :: rest) := rfl
  refine Scan.step none ?_
  exact Scan.lift_of_some (c.ofParts?_self 0) _

/-- Without seconds, a clock is read up to its second colon. -/
theorem clockField_text_short (c : Clock) (rest : List Char) :
    ∃ clock, Moment.clockField false (c.text ++ rest) =
      some (clock, ':' :: (padLeft 2 c.second ++ rest)) := by
  have hour := c.hour_lt
  have minute := c.minute_lt
  have parts : Clock.ofParts? c.hour c.minute 0 0 =
      some ⟨c.hour, c.minute, 0, 0, hour, minute, by decide⟩ := by
    simp [Clock.ofParts?, hour, minute]
  refine ⟨⟨c.hour, c.minute, 0, 0, hour, minute, by decide⟩, ?_⟩
  rw [c.text_append]
  refine Scan.step (field_padLeft (by omega) _) ?_
  refine Scan.step (Scan.char_cons ..) ?_
  refine Scan.step (field_padLeft (by omega) _) ?_
  rw [if_neg (by decide)]
  exact Scan.lift_of_some parts _

theorem clockField_of_letter (seconds : Bool) (cs : List Char) :
    Moment.clockField seconds ('T' :: cs) = none := by
  apply Scan.bind_of_none
  refine Scan.step (Scan.blanks_cons (by decide) _) ?_
  rfl

/-- A timestamp with a sign fits none of the accepted forms: with an offset a year has four digits,
and without one nothing may follow the time of day. -/
theorem ofChars?_timestampText_of_signed {d : Date} (signed : ¬ (0 ≤ d.year ∧ d.year ≤ 9999))
    (c : Clock) : Moment.ofChars? (timestampText d c) = none := by
  have full := timestamp_of_signed signed ('T' :: (c.text ++ ['Z']))
  have seconds : Moment.loose (Scan.char 'T') true (timestampText d c) = none := by
    apply dateField_bind_of_none
    refine Scan.step (Scan.char_cons ..) ?_
    refine Scan.step (clockField_text c []) ?_
    rfl
  have minutes : Moment.loose (Scan.char 'T') false (timestampText d c) = none := by
    obtain ⟨clock, short⟩ := clockField_text_short c ['Z']
    apply dateField_bind_of_none
    refine Scan.step (Scan.char_cons ..) ?_
    refine Scan.step short ?_
    rfl
  have spaced (seconds : Bool) : Moment.loose Scan.blanks seconds (timestampText d c) = none := by
    apply dateField_bind_of_none
    refine Scan.step (Scan.blanks_cons (by decide) _) ?_
    exact Scan.bind_of_none (clockField_of_letter seconds _)
  have plain : Moment.dateOnly (timestampText d c) = none := by
    apply dateField_bind_of_none
    rfl
  change Moment.timestamp (timestampText d c) = none at full
  simp only [Moment.ofChars?, Moment.forms, List.findSome?_cons, List.findSome?_nil, full, seconds,
    minutes, spaced, plain, Option.map_none]

/-- A year of four digits is written without a sign. -/
theorem yearText_of_unsigned {year : Int} (years : 0 ≤ year ∧ year ≤ 9999) :
    yearText year = padLeft 4 year.natAbs := by
  unfold yearText
  rw [if_neg (by omega), if_neg (by omega)]

theorem timestamp_timestampText {d : Date} (years : 0 ≤ d.year ∧ d.year ≤ 9999) (c : Clock) :
    Moment.timestamp (timestampText d c) =
      some (⟨d, { c with nanosecond := 0 }, .zero⟩, []) := by
  have hour := c.hour_lt
  have minute := c.minute_lt
  have second := c.second_le
  have year := yearText_of_unsigned years
  have natural : ((d.year.natAbs : Nat) : Int) = d.year := by omega
  rw [show timestampText d c = padLeft 4 d.year.natAbs ++ '-' :: (padLeft 2 d.month ++
    '-' :: (padLeft 2 d.day ++ 'T' :: (padLeft 2 c.hour ++ ':' :: (padLeft 2 c.minute ++
    ':' :: (padLeft 2 c.second ++ ['Z']))))) by
      simp [timestampText, Date.text, Clock.text, year]]
  refine Scan.step (exactly_padLeft (by decide) (by omega) _) ?_
  refine Scan.step (Scan.char_cons ..) ?_
  refine Scan.step (exactly_padLeft (by decide) d.month_lt _) ?_
  refine Scan.step (Scan.char_cons ..) ?_
  refine Scan.step (exactly_padLeft (by decide) d.day_lt _) ?_
  have letter (rest : List Char) :
      Scan.oneOf ['T', 't', ' '] ('T' :: rest) = some ('T', rest) := rfl
  refine Scan.step (letter _) ?_
  refine Scan.step (exactly_padLeft (by decide) (by omega) _) ?_
  refine Scan.step (Scan.char_cons ..) ?_
  refine Scan.step (exactly_padLeft (by decide) (by omega) _) ?_
  refine Scan.step (Scan.char_cons ..) ?_
  refine Scan.step (exactly_padLeft (by decide) (by omega) _) ?_
  have none : Moment.fraction ['Z'] = some (0, ['Z']) := rfl
  refine Scan.step none ?_
  have zone : Moment.zone ['Z'] = some (.zero, []) := rfl
  refine Scan.step zone ?_
  have finish : Scan.finish [] = some ((), []) := rfl
  refine Scan.step finish ?_
  have date : Date.ofYearMonthDay? (d.year.natAbs : Nat) d.month d.day = some d := by
    rw [natural]
    exact d.ofYearMonthDay?_self
  refine Scan.step (Scan.lift_of_some date _) ?_
  refine Scan.step (Scan.lift_of_some (c.ofParts?_self 0) _) ?_
  rfl

theorem ofChars?_timestampText {d : Date} (years : 0 ≤ d.year ∧ d.year ≤ 9999) (c : Clock) :
    Moment.ofChars? (timestampText d c) = some ⟨d, { c with nanosecond := 0 }, .zero⟩ := by
  simp only [Moment.ofChars?, Moment.forms, List.findSome?_cons, timestamp_timestampText years c,
    Option.map_some]

theorem timestamp_dateText (d : Date) : Moment.timestamp d.text = none := by
  by_cases years : 0 ≤ d.year ∧ d.year ≤ 9999
  · rw [show d.text = padLeft 4 d.year.natAbs ++ '-' :: (padLeft 2 d.month ++
      '-' :: (padLeft 2 d.day ++ [])) by simp [Date.text, yearText_of_unsigned years]]
    refine Scan.step (exactly_padLeft (by decide) (by omega) _) ?_
    refine Scan.step (Scan.char_cons ..) ?_
    refine Scan.step (exactly_padLeft (by decide) d.month_lt _) ?_
    refine Scan.step (Scan.char_cons ..) ?_
    refine Scan.step (exactly_padLeft (by decide) d.day_lt _) ?_
    exact Scan.bind_of_none rfl
  · rw [← List.append_nil d.text]
    exact timestamp_of_signed years []

/-- A plain date is read as midnight UTC. -/
theorem ofChars?_dateText {d : Date} (years : d.InCalendar) :
    Moment.ofChars? d.text = some ⟨d, .midnight, .zero⟩ := by
  have lettered (seconds : Bool) : Moment.loose (Scan.char 'T') seconds (d.text ++ []) = none :=
    dateField_bind_of_none (Scan.bind_of_none rfl)
  have spaced (seconds : Bool) : Moment.loose Scan.blanks seconds (d.text ++ []) = none := by
    apply dateField_bind_of_none
    have blanks : Scan.blanks [] = some ((), []) := rfl
    refine Scan.step blanks ?_
    exact Scan.bind_of_none rfl
  have date : Moment.dateField (d.text ++ []) = some (d, []) := by
    rw [dateField_text, if_pos (by simpa [Date.InCalendar] using years)]
  have plain : Moment.dateOnly (d.text ++ []) = some (⟨d, .midnight, .zero⟩, []) := by
    refine Scan.step date ?_
    rfl
  rw [List.append_nil] at plain
  simp only [List.append_nil] at lettered spaced
  simp only [Moment.ofChars?, Moment.forms, List.findSome?_cons, timestamp_dateText, lettered,
    spaced, plain, Option.map_none, Option.map_some]

theorem Date.year_of_ofYearMonthDay? {year : Int} {month day : Nat} {d : Date}
    (h : Date.ofYearMonthDay? year month day = some d) : d.year = year := by
  unfold ofYearMonthDay? at h
  split at h
  · split at h
    · cases h
      rfl
    · cases h
  · cases h

theorem gives_dateField : Moment.dateField.Gives Date.InCalendar := by
  refine Scan.gives_of_next fun year => ?_
  iterate 4 refine Scan.gives_of_next fun _ => ?_
  refine (Scan.gives_require _).bind fun _ years => ?_
  apply Scan.gives_lift
  intro d date
  rw [Date.InCalendar, Date.year_of_ofYearMonthDay? date]
  simpa using years

theorem gives_timestamp :
    Moment.timestamp.Gives fun m => 0 ≤ m.date.year ∧ m.date.year ≤ 9999 := by
  refine (Scan.gives_exactly 4).bind fun year small => ?_
  iterate 13 refine Scan.gives_of_next fun _ => ?_
  have date (month day : Nat) : Scan.Gives (liftM (Date.ofYearMonthDay? year month day))
      fun d => d.year = year :=
    Scan.gives_lift fun d date => Date.year_of_ofYearMonthDay? date
  refine (date _ _).bind fun d same => ?_
  refine Scan.gives_of_next fun c => ?_
  apply Scan.gives_pure
  change 0 ≤ d.year ∧ d.year ≤ 9999
  omega

theorem gives_loose (separator : Scan Unit) (seconds : Bool) :
    (Moment.loose separator seconds).Gives fun m => m.date.InCalendar := by
  refine gives_dateField.bind fun d years => ?_
  iterate 3 refine Scan.gives_of_next fun _ => ?_
  exact Scan.gives_pure years

theorem gives_dateOnly : Moment.dateOnly.Gives fun m => m.date.InCalendar := by
  refine gives_dateField.bind fun d years => ?_
  refine Scan.gives_of_next fun _ => ?_
  exact Scan.gives_pure years

/-- The moments that are read have years of the calendar. -/
theorem inCalendar_of_ofChars? {cs : List Char} {m : Moment} (h : Moment.ofChars? cs = some m) :
    m.date.InCalendar := by
  obtain ⟨form, member, read⟩ := List.exists_of_findSome?_eq_some h
  obtain ⟨⟨found, rest⟩, scanned, rfl⟩ := Option.map_eq_some_iff.mp read
  change found.date.InCalendar
  simp only [Moment.forms, List.mem_cons, List.not_mem_nil, or_false] at member
  rcases member with rfl | rfl | rfl | rfl | rfl | rfl
  · have years := gives_timestamp _ _ _ scanned
    unfold Date.InCalendar
    omega
  · exact gives_loose _ _ _ _ _ scanned
  · exact gives_loose _ _ _ _ _ scanned
  · exact gives_loose _ _ _ _ _ scanned
  · exact gives_loose _ _ _ _ _ scanned
  · exact gives_dateOnly _ _ _ scanned

end Time

end FetchOData
