import Mathlib.Algebra.Group.Nat.Defs
import FetchOData.Time.Date
import FetchOData.Text.Scan

namespace FetchOData

namespace Number

theorem digitChar_of_isDigit {c : Char} (h : c.isDigit = true) :
    c.toNat - '0'.toNat < 10 ∧ Nat.digitChar (c.toNat - '0'.toNat) = c := by
  have range : 48 ≤ c.toNat ∧ c.toNat ≤ 57 := by
    simpa [Char.isDigit, UInt32.le_iff_toNat_le] using h
  have zero : '0'.toNat = 48 := rfl
  refine ⟨by omega, ?_⟩
  apply Char.toNat_inj.mp
  rw [Nat.toNat_digitChar_of_lt_ten (by omega)]
  omega

theorem ofDigitChars_lt {cs : List Char} (h : ∀ c ∈ cs, c.isDigit = true) (init : Nat) :
    Nat.ofDigitChars 10 cs init < 10 ^ cs.length * (init + 1) := by
  induction cs generalizing init with
  | nil => simp
  | cons c cs ih =>
    have digit := (digitChar_of_isDigit (h c List.mem_cons_self)).1
    have rest :=
      ih (fun d hd => h d (List.mem_cons_of_mem _ hd)) (10 * init + (c.toNat - '0'.toNat))
    rw [Nat.ofDigitChars_cons]
    calc Nat.ofDigitChars 10 cs (10 * init + (c.toNat - '0'.toNat))
      _ < 10 ^ cs.length * (10 * init + (c.toNat - '0'.toNat) + 1) := rest
      _ ≤ 10 ^ cs.length * (10 * (init + 1)) := Nat.mul_le_mul_left _ (by omega)
      _ = 10 ^ (c :: cs).length * (init + 1) := by
        rw [List.length_cons, Nat.pow_succ, Nat.mul_assoc]

theorem ofDigits_lt {cs : List Char} (h : ∀ c ∈ cs, c.isDigit = true) :
    ofDigits cs < 10 ^ cs.length := by
  have bound := ofDigitChars_lt h 0
  rwa [Nat.zero_add, Nat.mul_one] at bound

/-- A numeral of at least `width` digits, with zeros in front only to fill the width. -/
structure IsNumeral (width n : Nat) (cs : List Char) : Prop where
  digits : ∀ c ∈ cs, c.isDigit = true
  value : ofDigits cs = n
  width_le : width ≤ cs.length
  no_zeros : width < cs.length → cs.head? ≠ some '0'

end Number

namespace Time
open Number

theorem digits_padLeft {width n : Nat} {c : Char} (h : c ∈ padLeft width n) : c.isDigit = true := by
  rcases List.mem_append.mp h with zero | digit
  · rw [List.eq_of_mem_replicate zero]
    rfl
  · exact Nat.isDigit_of_mem_toDigits (by decide) (by decide) digit

theorem ofDigits_padLeft (width n : Nat) : ofDigits (padLeft width n) = n := by
  change Nat.ofDigitChars 10 (List.replicate _ '0' ++ Nat.toDigits 10 n) 0 = n
  rw [Nat.ofDigitChars_append, Nat.ofDigitChars_replicate_zero, Nat.mul_zero,
    Nat.ofDigitChars_ten_toDigits]

theorem length_padLeft {width n : Nat} (pos : 0 < width) (small : n < 10 ^ width) :
    (padLeft width n).length = width := by
  have short : (Nat.toDigits 10 n).length ≤ width :=
    (Nat.length_toDigits_le_iff (by decide) pos).mpr small
  simp only [padLeft, digits, List.length_append, List.length_replicate]
  omega

theorem isNumeral_padLeft {width : Nat} (pos : 0 < width) (n : Nat) :
    IsNumeral width n (padLeft width n) where
  digits _ := digits_padLeft
  value := ofDigits_padLeft width n
  width_le := by
    simp only [padLeft, List.length_append, List.length_replicate]
    omega
  no_zeros := by
    intro long head
    have bare : padLeft width n = Nat.toDigits 10 n := by
      simp only [padLeft, digits, List.length_append, List.length_replicate] at long ⊢
      rw [show width - (Nat.toDigits 10 n).length = 0 by omega]
      rfl
    rw [bare] at long head
    obtain ⟨rest, split⟩ := List.head?_eq_some_iff.mp head
    -- Without the zero there are fewer digits than the number needs.
    have value : ofDigits rest = n := by
      have whole := ofDigits_padLeft width n
      rw [bare, split] at whole
      exact whole
    have small : n < 10 ^ rest.length := by
      rw [← value]
      apply ofDigits_lt
      intro c hc
      have written : c ∈ padLeft width n := by
        rw [bare, split]
        exact List.mem_cons_of_mem _ hc
      exact digits_padLeft written
    rw [split, List.length_cons] at long
    have fewer := (Nat.length_toDigits_le_iff (b := 10) (by decide) (by omega)).mpr small
    rw [split, List.length_cons] at fewer
    omega

end Time

namespace Text.Scan

variable {ds rest : List Char}

theorem takeWhile_digits (h : ∀ c ∈ ds, c.isDigit = true)
    (stop : ∀ c ∈ rest.head?, c.isDigit = false) : (ds ++ rest).takeWhile Char.isDigit = ds := by
  rw [List.takeWhile_append_of_pos h]
  cases rest with
  | nil => simp
  | cons c rest => simp [stop c rfl]

theorem digits_append (h : ∀ c ∈ ds, c.isDigit = true) (ne : ds ≠ [])
    (stop : ∀ c ∈ rest.head?, c.isDigit = false) : Scan.digits (ds ++ rest) = some (ds, rest) := by
  simp [Scan.digits, takeWhile_digits h stop, ne]

theorem upTo_append {width : Nat} (h : ∀ c ∈ ds, c.isDigit = true) (pos : 0 < width)
    (full : ds.length = width) :
    Scan.upTo width (ds ++ rest) = some (Number.ofDigits ds, rest) := by
  have ne : ds ≠ [] := by
    intro none
    simp [none] at full
    omega
  have taken : (ds ++ []).takeWhile Char.isDigit = ds := takeWhile_digits h (by simp)
  rw [List.append_nil] at taken
  simp [Scan.upTo, ← full, taken, ne]

theorem exactly_append {width : Nat} (h : ∀ c ∈ ds, c.isDigit = true) (full : ds.length = width) :
    Scan.exactly width (ds ++ rest) = some (Number.ofDigits ds, rest) := by
  have all : ds.all Char.isDigit = true := List.all_eq_true.mpr h
  simp [Scan.exactly, ← full, all]

end Text.Scan

end FetchOData
