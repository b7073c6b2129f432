import FetchOData.Number.Decimal
import FetchOData.Proofs.IntegerReading

namespace FetchOData.Number.Decimal

structure InRange (mantissa scale : Nat) : Prop where
  mantissa_lt : mantissa < limit
  scale_le : scale ≤ maxScale

structure Regular (x : Decimal) : Prop where
  range : InRange x.mantissa x.scale
  ne_zero : x.negative = true → x.mantissa ≠ 0

/-- What a negative number is rounded to that is too small for the last place. -/
def negativeZero : Decimal :=
  ⟨true, 0, maxScale⟩

theorem regular_signed {m scale : Nat} (range : InRange m scale) (negative : Bool) :
    (signed negative m scale).Regular where
  range := range
  ne_zero := by simp [signed]

theorem Regular.signed_eq {x : Decimal} (h : x.Regular) :
    signed x.negative x.mantissa x.scale = x := by
  obtain ⟨negative, m, scale⟩ := x
  cases negative with
  | false => rfl
  | true =>
    have nonzero : (m != 0) = true := bne_iff_ne.mpr (h.ne_zero rfl)
    rw [signed, nonzero]
    rfl

section Writing

variable {ds cs : List Char} {negative : Bool}

theorem read_digit {c : Char} {d : Nat} {r : Reading} (digit : digit? c = some d)
    (small : 10 * r.mantissa + d < limit) (places : r.point = true → r.scale < maxScale) :
    read negative r (c :: cs) =
      read negative { r with mantissa := 10 * r.mantissa + d,
                             scale := if r.point then r.scale + 1 else 0, digit := true } cs := by
  have fits : ¬limit ≤ 10 * r.mantissa + d := Nat.not_le.mpr small
  rw [read, digit]
  cases point : r.point with
  | false => simp [fits]
  | true =>
    have below : r.scale ≠ maxScale := Nat.ne_of_lt (places point)
    simp [fits, below]

/-- Digits that fit are taken one by one. -/
theorem read_digits {m k : Nat} {point seen : Bool} (digits : ∀ c ∈ ds, c.isDigit = true)
    (whole : point = false → k = 0) (small : Nat.ofDigitChars 10 ds m < limit)
    (places : point = true → k + ds.length ≤ maxScale) :
    read negative ⟨m, k, point, seen⟩ (ds ++ cs) =
      read negative ⟨Nat.ofDigitChars 10 ds m, if point then k + ds.length else 0, point,
        seen || !ds.isEmpty⟩ cs := by
  induction ds generalizing m k seen with
  | nil =>
    cases point with
    | false => simp [whole rfl]
    | true => simp
  | cons c ds ih =>
    rw [Nat.ofDigitChars_cons] at small ⊢
    have first := Nat.lt_of_le_of_lt (le_ofDigitChars ds _) small
    have room : point = true → k + 1 + ds.length ≤ maxScale := by
      intro h
      have := places h
      rw [List.length_cons] at this
      omega
    have below : point = true → k < maxScale := by
      intro h
      have := room h
      omega
    rw [List.cons_append, read_digit (digit?_of_isDigit (digits c List.mem_cons_self)) first below,
      ih (fun d hd => digits d (List.mem_cons_of_mem _ hd)) _ small]
    · cases point with
      | false => simp
      | true => simp [Nat.add_assoc, Nat.add_comm 1]
    · intro h
      rw [if_pos h]
      exact room h
    · intro h
      rw [h]
      rfl

/-- The text of a number with places behind the point: a whole part and as many digits as there are
places, which together spell the mantissa. -/
theorem exists_positional (m : Nat) {scale : Nat} (places : scale ≠ 0) :
    ∃ whole fraction, positional (Number.digits m) scale = whole ++ '.' :: fraction ∧
      IsDigits whole ∧ (∀ c ∈ fraction, c.isDigit = true) ∧ fraction.length = scale ∧
      Nat.ofDigitChars 10 fraction (ofDigits whole) = m := by
  have numeral : IsNumeral (scale + 1) m (Time.padLeft (scale + 1) m) :=
    Time.isNumeral_padLeft (Nat.succ_pos _) m
  have written : positional (Number.digits m) scale =
      (Time.padLeft (scale + 1) m).take ((Time.padLeft (scale + 1) m).length - scale) ++
        '.' :: (Time.padLeft (scale + 1) m).drop ((Time.padLeft (scale + 1) m).length - scale) := by
    rw [positional, if_neg places]
    rfl
  generalize Time.padLeft (scale + 1) m = padded at numeral written
  have width := numeral.width_le
  refine ⟨_, _, written, ⟨?_, ?_⟩, ?_, ?_, ?_⟩
  · apply List.ne_nil_of_length_pos
    rw [List.length_take]
    omega
  · intro c hc
    exact numeral.digits c (List.mem_of_mem_take hc)
  · intro c hc
    exact numeral.digits c (List.mem_of_mem_drop hc)
  · rw [List.length_drop]
    omega
  · rw [ofDigits, ← Nat.ofDigitChars_append, List.take_append_drop]
    exact numeral.value

theorem read_whole (h : IsDigits ds) (small : ofDigits ds < limit) :
    read negative {} (ds ++ cs) = read negative { mantissa := ofDigits ds, digit := true } cs := by
  have some_digit : (!ds.isEmpty) = true := by simpa using h.ne_nil
  have taken : read negative ⟨0, 0, false, false⟩ (ds ++ cs) = _ :=
    read_digits h.digits (fun _ => rfl) small (by simp)
  rwa [some_digit] at taken

theorem read_fraction {m : Nat} (digits : ∀ c ∈ ds, c.isDigit = true)
    (range : InRange (Nat.ofDigitChars 10 ds m) ds.length) :
    read negative { mantissa := m, point := true, digit := true } ds =
      .ok (signed negative (Nat.ofDigitChars 10 ds m) ds.length) := by
  have taken : read negative ⟨m, 0, true, true⟩ (ds ++ []) = _ :=
    read_digits digits (by simp) range.mantissa_lt (by simpa using range.scale_le)
  rw [List.append_nil, Nat.zero_add] at taken
  exact taken

/-- What is written in range is read as it was, but for the sign of zero. -/
theorem read_positional {m scale : Nat} (range : InRange m scale) :
    read negative {} (positional (Number.digits m) scale) = .ok (signed negative m scale) := by
  by_cases places : scale = 0
  · have numeral := isNumeral_digits m
    have small : ofDigits (Number.digits m) < limit := by
      rw [numeral.value]
      exact range.mantissa_lt
    rw [positional, if_pos places, ← List.append_nil (Number.digits m),
      read_whole numeral.isDigits small, numeral.value, places]
    rfl
  · obtain ⟨whole, fraction, text, digits, decimals, rfl, rfl⟩ := exists_positional m places
    have small : ofDigits whole < limit :=
      Nat.lt_of_le_of_lt (le_ofDigitChars _ _) range.mantissa_lt
    rw [text, read_whole digits small]
    exact read_fraction decimals range

theorem plain_of_digits (h : IsDigits ds) : plain (ds ++ cs) = read false {} (ds ++ cs) := by
  obtain ⟨c, ds, rfl⟩ := List.exists_cons_of_ne_nil h.ne_nil
  have digit := h.digits c List.mem_cons_self
  unfold plain
  split
  · rename_i empty
    cases empty
  · rename_i sign
    cases sign
    cases digit
  · rename_i sign
    cases sign
    cases digit
  · rfl

theorem plain_positional {m scale : Nat} (range : InRange m scale) :
    plain (positional (Number.digits m) scale) = .ok (signed false m scale) := by
  rw [← read_positional range]
  by_cases places : scale = 0
  · rw [positional, if_pos places, ← List.append_nil (Number.digits m)]
    exact plain_of_digits (isNumeral_digits m).isDigits
  · obtain ⟨whole, fraction, text, digits, _⟩ := exists_positional m places
    rw [text]
    exact plain_of_digits digits

/-- The text of a decimal in range is read as the decimal, but for the sign of zero. -/
theorem ofChars_text {x : Decimal} (range : InRange x.mantissa x.scale) :
    ofChars x.text.toList = .ok (signed x.negative x.mantissa x.scale) := by
  have read : plain x.text.toList = .ok (signed x.negative x.mantissa x.scale) := by
    rw [text, String.toList_ofList]
    cases x.negative with
    | false => exact plain_positional range
    | true => exact read_positional range
  rw [ofChars, read]

end Writing

section Reading

theorem roundBy_inRange {d m scale m' scale' : Nat} (range : InRange m scale)
    (h : roundBy d m scale = .ok (m', scale')) : InRange m' scale' := by
  unfold roundBy at h
  split at h
  · cases h
    exact range
  · split at h
    · rename_i small
      cases h
      exact ⟨small, range.scale_le⟩
    · split at h
      · cases h
      · cases h
        refine ⟨?_, Nat.le_trans (Nat.sub_le _ _) range.scale_le⟩
        have := range.mantissa_lt
        omega

theorem read_regular {negative : Bool} {r : Reading} {cs : List Char} {x : Decimal}
    (range : InRange r.mantissa r.scale) (h : read negative r cs = .ok x) : x.Regular := by
  fun_induction read negative r cs with
  | case1 r =>
    cases h
    exact regular_signed range negative
  | case4 r c cs d =>
    obtain ⟨⟨m, scale⟩, rounded, rest⟩ := bind_eq_ok_iff.mp h
    obtain ⟨_, _, rest⟩ := bind_eq_ok_iff.mp rest
    cases rest
    exact regular_signed (roundBy_inRange range rounded) negative
  | case5 r c cs d digit next whole fraction ih =>
    refine ih ?_ h
    cases point : r.point with
    | false =>
      have small : ¬limit ≤ next := by simpa [point] using whole
      exact ⟨Nat.not_le.mp small, Nat.zero_le _⟩
    | true =>
      have room : ¬limit ≤ next ∧ ¬r.scale = maxScale := by simpa [point] using fraction
      exact ⟨Nat.not_le.mp room.1, Nat.lt_of_le_of_ne range.scale_le room.2⟩
  | case7 r cs point _ ih => exact ih range h
  | case9 r cs =>
    obtain ⟨_, _, rest⟩ := bind_eq_ok_iff.mp h
    cases rest
    exact regular_signed range negative
  | case10 r cs _ _ _ _ ih => exact ih range h
  | case2 | case3 | case6 | case8 | case11 => cases h

theorem plain_regular {cs : List Char} {x : Decimal} (h : plain cs = .ok x) : x.Regular := by
  have start : InRange 0 0 := ⟨by decide, Nat.zero_le _⟩
  unfold plain at h
  split at h
  · cases h
  · exact read_regular start h
  · exact read_regular start h
  · exact read_regular start h

theorem shorten_lt {m places : Nat} (h : m < limit) : shorten m places < limit := by
  have pos : 0 < Nat.pow 10 places := Nat.pow_pos (by decide)
  rw [shorten, Nat.div_lt_iff_lt_mul (by omega)]
  generalize Nat.pow 10 places = q at pos
  have more : (m + 1) * q ≤ limit * q := Nat.mul_le_mul_right q h
  have least : m ≤ m * q := Nat.le_mul_of_pos_right m pos
  rw [Nat.add_mul, Nat.one_mul] at more
  rw [Nat.mul_left_comm]
  omega

/-- Only rounding to zero leaves a sign without a number. -/
theorem shiftDown_regular {n : Nat} {x y : Decimal} (hx : x.Regular) (h : shiftDown n x = .ok y) :
    y.Regular ∨ y = negativeZero := by
  unfold shiftDown at h
  split at h
  · cases h
  · split at h
    · rename_i room
      cases h
      exact Or.inl ⟨⟨hx.range.mantissa_lt, room⟩, hx.ne_zero⟩
    · cases h
      by_cases rounded : x.negative = true ∧ shorten x.mantissa (x.scale + n - maxScale) = 0
      · right
        simp only [rounded, negativeZero]
      · exact Or.inl ⟨⟨shorten_lt hx.range.mantissa_lt, Nat.le_refl _⟩,
          fun negative zero => rounded ⟨negative, zero⟩⟩

theorem shiftUp_regular {n : Nat} {x y : Decimal} (hx : x.Regular) (h : shiftUp n x = .ok y) :
    y.Regular := by
  unfold shiftUp at h
  split at h
  · cases h
    exact ⟨⟨hx.range.mantissa_lt, Nat.le_trans (Nat.sub_le _ _) hx.range.scale_le⟩, hx.ne_zero⟩
  · split at h
    · cases h
    · dsimp only at h
      split at h
      · cases h
      · rename_i small
        cases h
        refine ⟨⟨Nat.not_le.mp small, Nat.zero_le _⟩, ?_⟩
        intro negative
        have power : 0 < Nat.pow 10 (n - x.scale) := Nat.pow_pos (by decide)
        exact Nat.mul_ne_zero (hx.ne_zero negative) (Nat.ne_of_gt power)

theorem scientific_regular {base power : List Char} {y : Decimal}
    (h : scientific base power = .ok y) : y.Regular ∨ y = negativeZero := by
  obtain ⟨x, read, h⟩ := bind_eq_ok_iff.mp h
  have hx := plain_regular read
  split at h
  · obtain ⟨n, _, shifted⟩ := bind_eq_ok_iff.mp h
    exact shiftDown_regular hx shifted
  · obtain ⟨n, _, shifted⟩ := bind_eq_ok_iff.mp h
    exact Or.inl (shiftUp_regular hx shifted)

/-- Whatever is read is in range, and the only zero with a sign is the one that was rounded. -/
theorem ofChars_regular {cs : List Char} {x : Decimal} (h : ofChars cs = .ok x) :
    x.Regular ∨ x = negativeZero := by
  unfold ofChars at h
  split at h
  · rename_i read
    cases h
    exact Or.inl (plain_regular read)
  · split at h
    · cases h
    · exact scientific_regular h

end Reading

theorem Regular.ofChars_text {x : Decimal} (h : x.Regular) : ofChars x.text.toList = .ok x := by
  rw [Decimal.ofChars_text h.range, h.signed_eq]

theorem ofChars_negativeZero_text :
    ofChars negativeZero.text.toList = .ok ⟨false, 0, maxScale⟩ :=
  Decimal.ofChars_text ⟨by decide, Nat.le_refl _⟩

end FetchOData.Number.Decimal
