import Mathlib.Algebra.Group.Int.Defs
import FetchOData.Proofs.GuidSpelling
import FetchOData.Proofs.DecimalReading

namespace FetchOData.Literal
open Text Number

theorem isBlank_of_bare {c : Char} (h : c ∈ bareChars) : isBlank c = false := by
  have none_blank : ∀ c ∈ bareChars, isBlank c = false := by decide
  exact none_blank c h

theorem encode_of_numeral {s : String} (h : ∀ c ∈ s.toList, c ∈ numeralChars) : encode s = s :=
  encode_of_plain fun c hc => isPlain_of_numeral (h c hc)

theorem trim_of_bare {s : String} (h : ∀ c ∈ s.toList, c ∈ bareChars) :
    trim s.toList = s.toList :=
  trim_of_no_blanks fun c hc => isBlank_of_bare (h c hc)

section Integers

variable {bound : Nat} {value s : String}

theorem integer_literal_iff (pos : 0 < bound) :
    integer bound value = .ok s ↔
      ∃ n : Int, SpellsInteger (trim value.toList) n ∧ -(bound : Int) ≤ n ∧ n < bound ∧
        IsIntegerNumeral n s.toList := by
  have read (n : Int) : Number.integer bound (trim value.toList) = .ok n ↔ _ :=
    integer_eq_ok_iff pos
  unfold integer
  cases found : Number.integer bound (trim value.toList) with
  | error fault =>
    constructor
    · exact nofun
    · rintro ⟨n, spelled, low, high, _⟩
      rw [(read n).mpr ⟨spelled, low, high⟩] at found
      cases found
  | ok n =>
    have spelled := (read n).mp found
    simp only [encode_of_numeral fun _ => mem_integerText, Except.ok.injEq]
    constructor
    · rintro rfl
      exact ⟨n, spelled.1, spelled.2.1, spelled.2.2, isIntegerNumeral_iff.mpr rfl⟩
    · rintro ⟨m, again, low, high, numeral⟩
      have same := found.symm.trans ((read m).mpr ⟨again, low, high⟩)
      cases same
      exact (isIntegerNumeral_iff.mp numeral).symm

/-- The numeral spells the same integer, which is in range. -/
theorem integer_literal_again (pos : 0 < bound) (h : integer bound value = .ok s) :
    integer bound s = .ok s := by
  obtain ⟨n, _, low, high, numeral⟩ := (integer_literal_iff pos).mp h
  have bare : ∀ c ∈ s.toList, c ∈ bareChars := by
    intro c hc
    rw [isIntegerNumeral_iff.mp numeral] at hc
    exact mem_bareChars_of_numeral (mem_integerText hc)
  refine (integer_literal_iff pos).mpr ⟨n, ?_, low, high, numeral⟩
  rw [trim_of_bare bare]
  exact numeral.spells

end Integers

theorem guid_literal_iff {value s : String} :
    guid value = .ok s ↔ ∃ g : Guid, g.Spells (trim value.toList) ∧ s = g.text := by
  simp only [← Guid.accept?_eq_some_iff]
  unfold guid Guid.ofChars
  cases Guid.accept? (trim value.toList) with
  | none => simp
  | some g => simp [eq_comm]

theorem guid_literal_again {value s : String} (h : guid value = .ok s) : guid s = .ok s := by
  obtain ⟨g, _, rfl⟩ := guid_literal_iff.mp h
  refine guid_literal_iff.mpr ⟨g, ?_, rfl⟩
  rw [trim_of_bare fun _ => mem_guidText]
  exact g.spells_text

theorem decimal_literal_iff {value s : String} :
    decimal value = .ok s ↔
      ∃ x : Decimal, Decimal.ofChars (trim value.toList) = .ok x ∧ s = x.text := by
  unfold decimal
  cases Decimal.ofChars (trim value.toList) with
  | error fault => simp
  | ok x => simp [encode_of_numeral fun _ => mem_decimalText, eq_comm]

theorem trim_decimalText (x : Decimal) : trim x.text.toList = x.text.toList :=
  trim_of_bare fun _ hc => mem_bareChars_of_numeral (mem_decimalText hc)

/-- The literal of the zero that keeps a sign when a negative number is rounded. -/
theorem text_negativeZero : Decimal.negativeZero.text = "-0.0000000000000000000000000000" := by
  decide

theorem decimal_literal_again {value s : String} (h : decimal value = .ok s)
    (signless : s ≠ "-0.0000000000000000000000000000") : decimal s = .ok s := by
  obtain ⟨x, read, rfl⟩ := decimal_literal_iff.mp h
  refine decimal_literal_iff.mpr ⟨x, ?_, rfl⟩
  rw [trim_decimalText]
  rcases Decimal.ofChars_regular read with regular | rfl
  · exact regular.ofChars_text
  · exact absurd text_negativeZero signless

theorem decimal_negativeZero :
    decimal "-0.0000000000000000000000000000" = .ok "0.0000000000000000000000000000" := by
  rw [← text_negativeZero]
  refine decimal_literal_iff.mpr ⟨⟨false, 0, Decimal.maxScale⟩, ?_, by decide⟩
  rw [trim_decimalText]
  exact Decimal.ofChars_negativeZero_text

def exactKinds : List LiteralKind :=
  [.guid, .integer, .bigInt, .decimal]

theorem format_again {kind : LiteralKind} (exact_kind : kind ∈ exactKinds) {value s : String}
    (h : format kind value = .ok s)
    (signless : kind = .decimal → s ≠ "-0.0000000000000000000000000000") :
    format kind s = .ok s := by
  cases kind with
  | guid => exact guid_literal_again h
  | integer => exact integer_literal_again (by decide) h
  | bigInt => exact integer_literal_again (by decide) h
  | decimal => exact decimal_literal_again h (signless rfl)
  | string | dateTime | boolean | double => exact absurd exact_kind (by decide)

theorem format_eq_of_trim_eq {kind : LiteralKind} (exact_kind : kind ∈ exactKinds)
    {value value' : String} (h : trim value.toList = trim value'.toList) :
    format kind value = format kind value' := by
  cases kind with
  | guid => simp only [format, guid, h]
  | integer => simp only [format, integer, h]
  | bigInt => simp only [format, integer, h]
  | decimal => simp only [format, decimal, h]
  | string | dateTime | boolean | double => exact absurd exact_kind (by decide)

/-- Literals of identifiers and exact numbers are written as they are when they are given as values,
but for a decimal zero with a sign, and blanks around a value do not count. Exactly the spellings of
integers in range are integers, and each integer has its numeral as its only literal. Exactly the
spellings of an identifier are written as its text. -/
theorem exact_literals_canonical :
    (∀ kind ∈ exactKinds, ∀ value s : String, format kind value = .ok s →
      (kind = .decimal → s ≠ "-0.0000000000000000000000000000") → format kind s = .ok s) ∧
    format .decimal "-0.0000000000000000000000000000" = .ok "0.0000000000000000000000000000" ∧
    (∀ kind ∈ exactKinds, ∀ before value after : String,
      (∀ c ∈ before.toList, isBlank c = true) → (∀ c ∈ after.toList, isBlank c = true) →
        format kind (before ++ value ++ after) = format kind value) ∧
    (∀ value s : String, format .integer value = .ok s ↔
      ∃ n : Int, SpellsInteger (trim value.toList) n ∧ -2 ^ 31 ≤ n ∧ n < 2 ^ 31 ∧
        IsIntegerNumeral n s.toList) ∧
    (∀ value s : String, format .bigInt value = .ok s ↔
      ∃ n : Int, SpellsInteger (trim value.toList) n ∧ -2 ^ 63 ≤ n ∧ n < 2 ^ 63 ∧
        IsIntegerNumeral n s.toList) ∧
    (∀ n : Int, ∃ s : String, IsIntegerNumeral n s.toList) ∧
    ∀ value s : String, format .guid value = .ok s ↔
      ∃ g : Guid, g.Spells (trim value.toList) ∧ s = g.text := by
  refine ⟨fun _ exact_kind _ _ => format_again exact_kind, decimal_negativeZero, ?_,
    fun _ _ => integer_literal_iff (by decide), fun _ _ => integer_literal_iff (by decide),
    fun n => ⟨integerText n, isIntegerNumeral_iff.mpr rfl⟩, fun _ _ => guid_literal_iff⟩
  intro kind exact_kind before value after hb ha
  apply format_eq_of_trim_eq exact_kind
  rw [String.toList_append, String.toList_append, trim_append hb ha]

/-- A number just below zero is rounded to zero, and its literal is not written as it is. -/
theorem rounded_zero_rewritten :
    format .decimal "-0.04e-28" = .ok "-0.0000000000000000000000000000" ∧
      format .decimal "-0.0000000000000000000000000000" ≠
        .ok "-0.0000000000000000000000000000" := by
  refine ⟨rfl, ?_⟩
  intro same
  exact absurd (Except.ok.inj (decimal_negativeZero.symm.trans same)) (by decide)

/-- An identifier in capitals and in braces, also with blanks around it. -/
theorem exact_literals_canonical_braced :
    format .guid "\x7b3FEE3D59-68C9-ED11-B597-0022489B41C4\x7d" =
        .ok "3fee3d59-68c9-ed11-b597-0022489b41c4" ∧
      format .guid "3fee3d59-68c9-ed11-b597-0022489b41c4" =
        .ok "3fee3d59-68c9-ed11-b597-0022489b41c4" ∧
      format .guid (" " ++ "\x7b3FEE3D59-68C9-ED11-B597-0022489B41C4\x7d" ++ "\t") =
        .ok "3fee3d59-68c9-ed11-b597-0022489b41c4" := by
  have written : format .guid "\x7b3FEE3D59-68C9-ED11-B597-0022489B41C4\x7d" =
      .ok "3fee3d59-68c9-ed11-b597-0022489b41c4" := by
    rfl
  obtain ⟨again, _, blanks, _⟩ := exact_literals_canonical
  refine ⟨written, again .guid (by decide) _ _ written nofun, ?_⟩
  rw [blanks .guid (by decide) _ _ _ (by decide) (by decide), written]

end FetchOData.Literal
