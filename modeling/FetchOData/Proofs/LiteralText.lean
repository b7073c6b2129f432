import FetchOData.Literal

namespace FetchOData

namespace Text

theorem isPlain_hexDigit {n : Nat} (h : n < 16) : isPlain (hexDigit n) = true := by
  have : ∀ n : Fin 16, isPlain (hexDigit n.val) = true := by decide
  exact this ⟨n, h⟩

theorem mem_encodeChar {c d : Char} (h : d ∈ encodeChar c) :
    isPlain d = true ∨ d = '+' ∨ d = '%' := by
  unfold encodeChar at h
  split at h
  · rename_i hc
    rw [List.mem_singleton.mp h]
    exact Or.inl hc
  · split at h
    · exact Or.inr (Or.inl (List.mem_singleton.mp h))
    · obtain ⟨b, _, hb⟩ := List.mem_flatMap.mp h
      have hlt := b.toNat_lt
      simp only [encodeByte, List.mem_cons, List.not_mem_nil, or_false] at hb
      rcases hb with rfl | rfl | rfl
      · exact Or.inr (Or.inr rfl)
      · exact Or.inl (isPlain_hexDigit (by omega))
      · exact Or.inl (isPlain_hexDigit (by omega))

theorem mem_encode {s : String} {d : Char} (h : d ∈ (encode s).toList) :
    isPlain d = true ∨ d = '+' ∨ d = '%' := by
  rw [encode, String.toList_ofList] at h
  obtain ⟨c, _, hc⟩ := List.mem_flatMap.mp h
  exact mem_encodeChar hc

theorem encode_append (s t : String) : encode (s ++ t) = encode s ++ encode t := by
  simp [encode]

theorem encode_of_plain {s : String} (h : ∀ c ∈ s.toList, isPlain c = true) : encode s = s := by
  have hc : ∀ cs : List Char, (∀ c ∈ cs, isPlain c = true) → cs.flatMap encodeChar = cs := by
    intro cs h
    induction cs with
    | nil => rfl
    | cons c cs ih =>
      rw [List.flatMap_cons, encodeChar, if_pos (h c List.mem_cons_self),
        ih fun d hd => h d (List.mem_cons_of_mem _ hd)]
      rfl
  rw [encode, hc _ h, String.ofList_toList]

theorem encode_slash : encode "/" = "%2f" := by
  decide

theorem dropBlanks_of_no_blanks {cs : List Char} (h : ∀ c ∈ cs, isBlank c = false) :
    dropBlanks cs = cs := by
  cases cs with
  | nil => rfl
  | cons c cs => simp [dropBlanks, h c]

theorem trim_of_no_blanks {cs : List Char} (h : ∀ c ∈ cs, isBlank c = false) : trim cs = cs := by
  have back : ∀ c ∈ cs.reverse, isBlank c = false := by
    intro c hc
    exact h c (List.mem_reverse.mp hc)
  rw [trim, dropBlanks_of_no_blanks h, dropBlanks_of_no_blanks back, List.reverse_reverse]

theorem dropBlanks_append {blanks : List Char} (h : ∀ c ∈ blanks, isBlank c = true)
    (cs : List Char) : dropBlanks (blanks ++ cs) = dropBlanks cs :=
  List.dropWhile_append_of_pos h

theorem dropBlanks_of_blanks {blanks : List Char} (h : ∀ c ∈ blanks, isBlank c = true) :
    dropBlanks blanks = [] := by
  have dropped := dropBlanks_append h []
  rwa [List.append_nil] at dropped

/-- Blanks at the ends of a text do not count. -/
theorem trim_append {before after : List Char} (hb : ∀ c ∈ before, isBlank c = true)
    (ha : ∀ c ∈ after, isBlank c = true) (cs : List Char) :
    trim (before ++ cs ++ after) = trim cs := by
  have back : ∀ c ∈ after.reverse, isBlank c = true := by
    intro c hc
    exact ha c (List.mem_reverse.mp hc)
  have front : dropBlanks (cs ++ after) =
      if (dropBlanks cs).isEmpty then dropBlanks after else dropBlanks cs ++ after :=
    List.dropWhile_append
  rw [trim, trim, List.append_assoc, dropBlanks_append hb, front]
  split
  -- Nothing is left of blanks alone, so those behind them go as well.
  · rename_i blank
    rw [dropBlanks_of_blanks ha, List.isEmpty_iff.mp blank]
  · rw [List.reverse_append, dropBlanks_append back]

end Text

theorem Number.digits_inj {m n : Nat} (h : Number.digits m = Number.digits n) : m = n := by
  calc m = Nat.ofDigitChars 10 (Number.digits m) 0 := Nat.ofDigitChars_ten_toDigits.symm
    _ = Nat.ofDigitChars 10 (Number.digits n) 0 := by rw [h]
    _ = n := Nat.ofDigitChars_ten_toDigits

namespace Literal
open Text

def numeralChars : List Char :=
  "0123456789-.".toList

/-- The characters of literals that are not texts. Neither a connective nor a range variable can be
made of them. -/
def bareChars : List Char :=
  "0123456789abcdefTZlrstu+-.:".toList

theorem mem_bareChars_of_numeral {c : Char} (h : c ∈ numeralChars) : c ∈ bareChars := by
  have sub : ∀ c ∈ numeralChars, c ∈ bareChars := by decide
  exact sub c h

theorem isPlain_of_numeral {c : Char} (h : c ∈ numeralChars) : isPlain c = true := by
  have sub : ∀ c ∈ numeralChars, isPlain c = true := by decide
  exact sub c h

def IsWritten (s : String) : Prop :=
  (∃ text, s = quoted text) ∨ ∀ c ∈ s.toList, c ∈ bareChars

theorem mem_numeralChars_of_isDigit {c : Char} (h : c.isDigit = true) : c ∈ numeralChars := by
  have hd : ∀ n : Fin 10, Char.ofNat (48 + n.val) ∈ numeralChars := by decide
  have hb : 48 ≤ c.toNat ∧ c.toNat ≤ 57 := by
    simpa [Char.isDigit, UInt32.le_iff_toNat_le] using h
  have hc := hd ⟨c.toNat - 48, by omega⟩
  rwa [show 48 + (c.toNat - 48) = c.toNat by omega, Char.ofNat_toNat] at hc

theorem mem_digits {n : Nat} {c : Char} (h : c ∈ Number.digits n) : c ∈ numeralChars :=
  mem_numeralChars_of_isDigit (Nat.isDigit_of_mem_toDigits (by decide) (by decide) h)

theorem mem_positional {ds : List Char} {scale : Nat} {c : Char}
    (hd : ∀ d ∈ ds, d ∈ numeralChars) (h : c ∈ Number.positional ds scale) : c ∈ numeralChars := by
  unfold Number.positional at h
  split at h
  · exact hd c h
  · have padded : ∀ d ∈ List.replicate (scale + 1 - ds.length) '0' ++ ds, d ∈ numeralChars := by
      intro d hm
      rcases List.mem_append.mp hm with hm | hm
      · rw [List.eq_of_mem_replicate hm]
        decide
      · exact hd d hm
    rcases List.mem_append.mp h with h | h
    · exact padded c (List.mem_of_mem_take h)
    · rcases List.mem_cons.mp h with rfl | h
      · decide
      · exact padded c (List.mem_of_mem_drop h)

theorem mem_positionalText {s : Number.Scaled} {c : Char} (h : c ∈ s.positionalText) :
    c ∈ numeralChars := by
  have kept : ∀ d ∈ ((Number.digits s.coefficient).reverse.dropWhile (· == '0')).reverse,
      d ∈ numeralChars := by
    intro d hd
    have hd := (List.dropWhile_sublist _).subset (List.mem_reverse.mp hd)
    exact mem_digits (List.mem_reverse.mp hd)
  unfold Number.Scaled.positionalText at h
  dsimp only at h
  split at h
  · rw [List.mem_singleton.mp h]
    decide
  · split at h
    · rcases List.mem_append.mp h with h | h
      · exact kept c h
      · rw [List.eq_of_mem_replicate h]
        decide
    · exact mem_positional kept h

theorem mem_signed {negative : Bool} {cs : List Char} {c : Char} (hcs : ∀ d ∈ cs, d ∈ numeralChars)
    (h : c ∈ (if negative then '-' :: cs else cs)) : c ∈ numeralChars := by
  split at h
  · rcases List.mem_cons.mp h with rfl | h
    · decide
    · exact hcs c h
  · exact hcs c h

theorem mem_integerText {n : Int} {c : Char} (h : c ∈ (Number.integerText n).toList) :
    c ∈ numeralChars := by
  cases n with
  | ofNat n => exact mem_digits (by simpa [Number.integerText] using h)
  | negSucc n =>
    rw [Number.integerText, String.toList_ofList] at h
    rcases List.mem_cons.mp h with rfl | h
    · decide
    · exact mem_digits h

theorem mem_decimalText {x : Number.Decimal} {c : Char} (h : c ∈ x.text.toList) :
    c ∈ numeralChars := by
  rw [Number.Decimal.text, String.toList_ofList] at h
  exact mem_signed (fun _ hd => mem_positional (fun _ hm => mem_digits hm) hd) h

theorem mem_doubleText {x : Number.Double} {c : Char} (h : c ∈ x.text.toList) : c ∈ numeralChars := by
  rw [Number.Double.text, String.toList_ofList] at h
  exact mem_signed (fun _ hd => mem_positionalText hd) h

theorem mem_writeGroups {ns : List Nat} {cs : List Char} {c : Char} (h : c ∈ Guid.writeGroups ns cs) :
    c ∈ cs ∨ c = '-' := by
  fun_induction Guid.writeGroups ns cs with
  | case1 => cases h
  | case2 => exact Or.inl h
  | case3 n ns cs _ ih =>
    rcases List.mem_append.mp h with h | h
    · exact Or.inl (List.mem_of_mem_take h)
    · rcases List.mem_cons.mp h with rfl | h
      · exact Or.inr rfl
      · exact (ih h).imp_left List.mem_of_mem_drop

theorem mem_guidText {g : Guid} {c : Char} (h : c ∈ g.text.toList) : c ∈ bareChars := by
  have hn : ∀ n : Fin 16, Guid.nibbleChar n ∈ bareChars := by decide
  rw [Guid.text, String.toList_ofList] at h
  rcases mem_writeGroups h with h | rfl
  · obtain ⟨n, _, rfl⟩ := List.mem_map.mp h
    exact hn n
  · decide

theorem mem_padLeft {width n : Nat} {c : Char} (h : c ∈ Time.padLeft width n) : c ∈ bareChars := by
  rcases List.mem_append.mp h with h | h
  · rw [List.eq_of_mem_replicate h]
    decide
  · exact mem_bareChars_of_numeral (mem_digits h)

theorem mem_yearText {year : Int} {c : Char} (h : c ∈ Time.yearText year) : c ∈ bareChars := by
  unfold Time.yearText at h
  split at h
  · rcases List.mem_cons.mp h with rfl | h
    · decide
    · exact mem_padLeft h
  · split at h
    · rcases List.mem_cons.mp h with rfl | h
      · decide
      · exact mem_padLeft h
    · exact mem_padLeft h

/-- Parts in a row with a character after the first. -/
theorem mem_append_cons {xs ys : List Char} {s c : Char} (hx : ∀ d ∈ xs, d ∈ bareChars)
    (hs : s ∈ bareChars) (hy : ∀ d ∈ ys, d ∈ bareChars) (h : c ∈ xs ++ s :: ys) :
    c ∈ bareChars := by
  rcases List.mem_append.mp h with h | h
  · exact hx c h
  · rcases List.mem_cons.mp h with rfl | h
    · exact hs
    · exact hy c h

theorem mem_dateText {d : Time.Date} {c : Char} (h : c ∈ d.text) : c ∈ bareChars := by
  rw [Time.Date.text, List.append_assoc, List.cons_append] at h
  exact mem_append_cons (fun _ => mem_yearText) (by decide)
    (fun _ => mem_append_cons (fun _ => mem_padLeft) (by decide) fun _ => mem_padLeft) h

theorem mem_clockText {k : Time.Clock} {c : Char} (h : c ∈ k.text) : c ∈ bareChars := by
  rw [Time.Clock.text, List.append_assoc, List.cons_append] at h
  exact mem_append_cons (fun _ => mem_padLeft) (by decide)
    (fun _ => mem_append_cons (fun _ => mem_padLeft) (by decide) fun _ => mem_padLeft) h

theorem mem_momentText {m : Time.Moment} {c : Char} (h : c ∈ m.text.toList) : c ∈ bareChars := by
  unfold Time.Moment.text at h
  split at h
  · exact mem_dateText (by simpa using h)
  · dsimp only at h
    rw [String.toList_ofList, List.append_assoc, List.cons_append] at h
    exact mem_append_cons (fun _ => mem_dateText) (by decide)
      (fun _ => mem_append_cons (fun _ => mem_clockText) (by decide) fun _ hd => by cases hd) h

/-- Numbers have nothing in them that is encoded. -/
theorem isWritten_encode {s : String} (h : ∀ c ∈ s.toList, c ∈ numeralChars) :
    IsWritten (encode s) := by
  rw [encode_of_plain fun c hc => isPlain_of_numeral (h c hc)]
  exact Or.inr fun c hc => mem_bareChars_of_numeral (h c hc)

theorem isWritten_of_integer {bound : Nat} {value s : String} (h : integer bound value = .ok s) :
    IsWritten s := by
  unfold integer at h
  split at h
  · cases h
    exact isWritten_encode fun _ => mem_integerText
  · cases h

/-- Every literal is a text in quotes or made of the characters of bare ones. -/
theorem isWritten_of_format {kind : LiteralKind} {value s : String}
    (h : format kind value = .ok s) : IsWritten s := by
  cases kind with
  | string =>
    cases h
    exact Or.inl ⟨value, rfl⟩
  | boolean =>
    cases h
    have sub : (∀ c ∈ "true".toList, c ∈ bareChars) ∧ ∀ c ∈ "false".toList, c ∈ bareChars := by
      decide
    unfold boolean
    split
    · exact Or.inr sub.1
    · exact Or.inr sub.2
  | dateTime =>
    change dateTime value = .ok s at h
    unfold dateTime at h
    split at h
    · cases h
      exact Or.inr fun _ => mem_momentText
    · cases h
  | guid =>
    change guid value = .ok s at h
    unfold guid at h
    split at h
    · cases h
      exact Or.inr fun _ => mem_guidText
    · cases h
  | integer => exact isWritten_of_integer h
  | bigInt => exact isWritten_of_integer h
  | decimal =>
    change decimal value = .ok s at h
    unfold decimal at h
    split at h
    · cases h
      exact isWritten_encode fun _ => mem_decimalText
    · cases h
  | double =>
    change double value = .ok s at h
    unfold double at h
    split at h
    · cases h
      exact isWritten_encode fun _ => mem_doubleText
    · cases h

end Literal

end FetchOData
