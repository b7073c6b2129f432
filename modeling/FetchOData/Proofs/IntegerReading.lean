import FetchOData.Number.Integer
import FetchOData.Proofs.Numerals

namespace FetchOData.Number

structure IsDigits (cs : List Char) : Prop where
  ne_nil : cs ≠ []
  digits : ∀ c ∈ cs, c.isDigit = true

inductive SpellsInteger : List Char → Int → Prop where
  | unsigned (h : IsDigits ds) : SpellsInteger ds (ofDigits ds)
  | plus (h : IsDigits ds) : SpellsInteger ('+' :: ds) (ofDigits ds)
  | minus (h : IsDigits ds) : SpellsInteger ('-' :: ds) (-(ofDigits ds : Int))

/-- The numeral of an integer: no plus sign and no zeros in front. -/
def IsIntegerNumeral (n : Int) (cs : List Char) : Prop :=
  ∃ ds, cs = (if n < 0 then '-' :: ds else ds) ∧ IsNumeral 1 n.natAbs ds

theorem IsDigits.head_ne {ds cs : List Char} {c : Char} (h : IsDigits ds)
    (sign : c.isDigit = false) : ds ≠ c :: cs := by
  rintro rfl
  rw [h.digits c List.mem_cons_self] at sign
  cases sign

theorem spellsInteger_minus_iff {ds : List Char} {n : Int} :
    SpellsInteger ('-' :: ds) n ↔ IsDigits ds ∧ n = -(ofDigits ds : Int) := by
  constructor
  · intro h
    cases h with
    | unsigned digits => exact absurd rfl (digits.head_ne rfl)
    | minus digits => exact ⟨digits, rfl⟩
  · rintro ⟨digits, rfl⟩
    exact .minus digits

theorem spellsInteger_plus_iff {ds : List Char} {n : Int} :
    SpellsInteger ('+' :: ds) n ↔ IsDigits ds ∧ n = ofDigits ds := by
  constructor
  · intro h
    cases h with
    | unsigned digits => exact absurd rfl (digits.head_ne rfl)
    | plus digits => exact ⟨digits, rfl⟩
  · rintro ⟨digits, rfl⟩
    exact .plus digits

theorem spellsInteger_iff_of_unsigned {cs : List Char} {n : Int} (minus : ∀ ds, cs ≠ '-' :: ds)
    (plus : ∀ ds, cs ≠ '+' :: ds) : SpellsInteger cs n ↔ IsDigits cs ∧ n = ofDigits cs := by
  constructor
  · intro h
    cases h with
    | unsigned digits => exact ⟨digits, rfl⟩
    | plus => exact absurd rfl (plus _)
    | minus => exact absurd rfl (minus _)
  · rintro ⟨digits, rfl⟩
    exact .unsigned digits

theorem digit?_of_isDigit {c : Char} (h : c.isDigit = true) :
    digit? c = some (c.toNat - '0'.toNat) := by
  rw [digit?, if_pos h]
  rfl

theorem digit?_of_not_isDigit {c : Char} (h : ¬c.isDigit = true) : digit? c = none := by
  rw [digit?, if_neg h]

theorem le_ofDigitChars (cs : List Char) (init : Nat) : init ≤ Nat.ofDigitChars 10 cs init := by
  induction cs generalizing init with
  | nil => simp
  | cons c cs ih =>
    rw [Nat.ofDigitChars_cons]
    have rest := ih (10 * init + (c.toNat - '0'.toNat))
    omega

/-- The value only grows while digits are read, so it never passes a limit that it ends below. -/
theorem readMagnitude_eq_ok_iff {limit value n : Nat} {overflow : IntegerFault} {cs : List Char}
    (small : value ≤ limit) :
    readMagnitude limit overflow value cs = .ok n ↔
      (∀ c ∈ cs, c.isDigit = true) ∧ Nat.ofDigitChars 10 cs value ≤ limit ∧
        n = Nat.ofDigitChars 10 cs value := by
  induction cs generalizing value with
  | nil => simp [readMagnitude, small, eq_comm (a := n)]
  | cons c cs ih =>
    rw [readMagnitude, Nat.ofDigitChars_cons, List.forall_mem_cons]
    by_cases digit : c.isDigit = true
    · rw [digit?_of_isDigit digit]
      have grows := le_ofDigitChars cs (10 * value + (c.toNat - '0'.toNat))
      by_cases passed : limit < 10 * value + (c.toNat - '0'.toNat)
      · simp only [passed, if_true]
        constructor
        · intro h
          cases h
        · intro h
          omega
      · simp only [passed, if_false, ih (Nat.le_of_not_lt passed), digit, true_and]
    · rw [digit?_of_not_isDigit digit]
      simp [digit]

theorem readMagnitude_zero_eq_ok_iff {limit n : Nat} {overflow : IntegerFault} {cs : List Char}
    (ne : cs ≠ []) :
    readMagnitude limit overflow 0 cs = .ok n ↔
      IsDigits cs ∧ ofDigits cs ≤ limit ∧ n = ofDigits cs := by
  rw [readMagnitude_eq_ok_iff (Nat.zero_le _)]
  exact and_congr_left fun _ => ⟨fun digits => ⟨ne, digits⟩, IsDigits.digits⟩

theorem natural_plus_eq_ok_iff {limit n : Nat} {cs : List Char} :
    natural limit ('+' :: cs) = .ok n ↔ IsDigits cs ∧ ofDigits cs ≤ limit ∧ n = ofDigits cs := by
  cases cs with
  | nil => exact ⟨nofun, fun h => absurd rfl h.1.ne_nil⟩
  | cons c cs => exact readMagnitude_zero_eq_ok_iff nofun

theorem natural_eq_ok_iff_of_unsigned {limit n : Nat} {cs : List Char}
    (plus : ∀ ds, cs ≠ '+' :: ds) :
    natural limit cs = .ok n ↔ IsDigits cs ∧ ofDigits cs ≤ limit ∧ n = ofDigits cs := by
  unfold natural
  split
  · exact ⟨nofun, fun h => absurd rfl h.1.ne_nil⟩
  · exact absurd rfl (plus _)
  · exact absurd rfl (plus _)
  · rename_i ne _ _
    exact readMagnitude_zero_eq_ok_iff ne

theorem map_eq_ok_iff {x : Except ε α} {f : α → β} {b : β} :
    x.map f = .ok b ↔ ∃ a, x = .ok a ∧ b = f a := by
  cases x with
  | error cause => simp [Except.map]
  | ok a => simp [Except.map, eq_comm]

theorem bind_eq_ok_iff {x : Except ε α} {f : α → Except ε β} {b : β} :
    (x >>= f) = .ok b ↔ ∃ a, x = .ok a ∧ f a = .ok b := by
  cases x with
  | error cause => simp [bind, Except.bind]
  | ok a => simp [bind, Except.bind]

theorem integer_minus_eq_ok_iff {bound : Nat} {cs : List Char} {n : Int} :
    integer bound ('-' :: cs) = .ok n ↔
      IsDigits cs ∧ ofDigits cs ≤ bound ∧ n = -(ofDigits cs : Int) := by
  cases cs with
  | nil => exact ⟨nofun, fun h => absurd rfl h.1.ne_nil⟩
  | cons c cs =>
    have unfolded : integer bound ('-' :: c :: cs) =
        (readMagnitude bound .tooSmall 0 (c :: cs)).map fun m : Nat => -(m : Int) := by
      change Except.map _
        (readMagnitude bound .tooSmall 0 (c :: cs) >>= fun m => pure (m : Int)) = _
      cases readMagnitude bound .tooSmall 0 (c :: cs) with
      | error cause => rfl
      | ok m => rfl
    rw [unfolded, map_eq_ok_iff]
    simp only [readMagnitude_zero_eq_ok_iff (List.cons_ne_nil c cs)]
    constructor
    · rintro ⟨m, ⟨digits, bounded, rfl⟩, rfl⟩
      exact ⟨digits, bounded, rfl⟩
    · rintro ⟨digits, bounded, rfl⟩
      exact ⟨_, ⟨digits, bounded, rfl⟩, rfl⟩

theorem integer_eq_ok_iff_of_natural {bound : Nat} {cs : List Char} {n : Int}
    (minus : ∀ ds, cs ≠ '-' :: ds) :
    integer bound cs = .ok n ↔ ∃ m : Nat, natural (bound - 1) cs = .ok m ∧ n = m := by
  unfold integer
  split
  · exact absurd rfl (minus _)
  · exact absurd rfl (minus _)
  · exact map_eq_ok_iff

/-- Exactly the integers from `-bound` on and below `bound` are read, in every spelling. -/
theorem integer_eq_ok_iff {bound : Nat} (pos : 0 < bound) {cs : List Char} {n : Int} :
    integer bound cs = .ok n ↔ SpellsInteger cs n ∧ -(bound : Int) ≤ n ∧ n < bound := by
  by_cases minus : ∃ ds, cs = '-' :: ds
  · obtain ⟨ds, rfl⟩ := minus
    rw [integer_minus_eq_ok_iff, spellsInteger_minus_iff]
    constructor
    · rintro ⟨digits, bounded, rfl⟩
      exact ⟨⟨digits, rfl⟩, by omega, by omega⟩
    · rintro ⟨⟨digits, rfl⟩, low, _⟩
      exact ⟨digits, by omega, rfl⟩
  have minus := not_exists.mp minus
  have range (spelled : Prop) (value : Nat) :
      (∃ m : Nat, (spelled ∧ value ≤ bound - 1 ∧ m = value) ∧ n = m) ↔
        (spelled ∧ n = value) ∧ -(bound : Int) ≤ n ∧ n < bound := by
    constructor
    · rintro ⟨m, ⟨digits, bounded, rfl⟩, rfl⟩
      exact ⟨⟨digits, rfl⟩, by omega, by omega⟩
    · rintro ⟨⟨digits, rfl⟩, _, high⟩
      exact ⟨value, ⟨digits, by omega, rfl⟩, rfl⟩
  rw [integer_eq_ok_iff_of_natural minus]
  by_cases plus : ∃ ds, cs = '+' :: ds
  · obtain ⟨ds, rfl⟩ := plus
    simp only [natural_plus_eq_ok_iff, spellsInteger_plus_iff, range]
  · have plus := not_exists.mp plus
    simp only [natural_eq_ok_iff_of_unsigned plus, spellsInteger_iff_of_unsigned minus plus, range]

/-- Digits behind a numeral make the numeral of a larger number. -/
theorem digits_append {ds : List Char} (h : ∀ c ∈ ds, c.isDigit = true) {init : Nat}
    (pos : 0 < init) : digits init ++ ds = digits (Nat.ofDigitChars 10 ds init) := by
  induction ds generalizing init with
  | nil => simp [digits]
  | cons c ds ih =>
    obtain ⟨small, written⟩ := digitChar_of_isDigit (h c List.mem_cons_self)
    have next : digits init ++ [c] = digits (10 * init + (c.toNat - '0'.toNat)) := by
      have split := Nat.toDigits_append_toDigits (b := 10) (by decide) pos small
      rwa [Nat.toDigits_of_lt_base small, written] at split
    rw [Nat.ofDigitChars_cons, ← ih (fun d hd => h d (List.mem_cons_of_mem _ hd)) (by omega),
      ← next, List.append_assoc]
    rfl

theorem isNumeral_digits (n : Nat) : IsNumeral 1 n (digits n) := by
  have padded : IsNumeral 1 n (Time.padLeft 1 n) := Time.isNumeral_padLeft (by decide) n
  have bare : Time.padLeft 1 n = digits n := by
    have some_digit : 0 < (digits n).length := Nat.length_toDigits_pos
    rw [Time.padLeft, show 1 - (digits n).length = 0 by omega]
    rfl
  rwa [bare] at padded

theorem IsNumeral.isDigits {n : Nat} {cs : List Char} (h : IsNumeral 1 n cs) : IsDigits cs :=
  ⟨List.ne_nil_of_length_pos h.width_le, h.digits⟩

/-- There is only one numeral of a number without zeros in front. -/
theorem IsNumeral.eq_digits {n : Nat} {cs : List Char} (h : IsNumeral 1 n cs) :
    cs = Number.digits n := by
  cases cs with
  | nil => exact absurd h.width_le (by decide)
  | cons c cs =>
    obtain ⟨small, written⟩ := digitChar_of_isDigit (h.digits c List.mem_cons_self)
    have first : Number.digits (c.toNat - '0'.toNat) = [c] := by
      rw [Number.digits, Nat.toDigits_of_lt_base small, written]
    have value : Nat.ofDigitChars 10 cs (c.toNat - '0'.toNat) = n := by
      simpa [ofDigits, Nat.ofDigitChars_cons] using h.value
    by_cases zero : c.toNat - '0'.toNat = 0
    · have head : c = '0' := by rw [← written, zero]; rfl
      have alone : cs = [] := by
        apply List.eq_nil_iff_length_eq_zero.mpr
        apply Nat.eq_zero_of_not_pos
        intro more
        exact h.no_zeros (Nat.lt_add_of_pos_left more) (by rw [head]; rfl)
      rw [alone] at value ⊢
      rw [← first, ← value]
      rfl
    · have rest := digits_append (fun d hd => h.digits d (List.mem_cons_of_mem _ hd))
        (Nat.pos_of_ne_zero zero)
      rw [first, value] at rest
      exact rest

theorem isIntegerNumeral_iff {n : Int} {s : String} :
    IsIntegerNumeral n s.toList ↔ s = integerText n := by
  have written : (integerText n).toList =
      if n < 0 then '-' :: digits n.natAbs else digits n.natAbs := by
    cases n with
    | ofNat m =>
      have natural : ¬Int.ofNat m < 0 := Int.not_lt.mpr (Int.natCast_nonneg m)
      rw [integerText, String.toList_ofList, if_neg natural]
      rfl
    | negSucc m =>
      rw [integerText, String.toList_ofList, if_pos (Int.negSucc_lt_zero m)]
      rfl
  constructor
  · rintro ⟨ds, text, numeral⟩
    apply String.toList_injective
    rw [text, written, numeral.eq_digits]
  · rintro rfl
    exact ⟨digits n.natAbs, written, isNumeral_digits _⟩

/-- The numeral of an integer is one of its spellings. -/
theorem IsIntegerNumeral.spells {n : Int} {cs : List Char} (h : IsIntegerNumeral n cs) :
    SpellsInteger cs n := by
  obtain ⟨ds, rfl, numeral⟩ := h
  have digits := numeral.isDigits
  by_cases negative : n < 0
  · have value : n = -(ofDigits ds : Int) := by
      rw [numeral.value]
      omega
    rw [if_pos negative, value]
    exact .minus digits
  · have value : n = ofDigits ds := by
      rw [numeral.value]
      omega
    rw [if_neg negative, value]
    exact .unsigned digits

end FetchOData.Number
