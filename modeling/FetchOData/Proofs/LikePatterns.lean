import Mathlib.Data.List.Infix
import FetchOData.Compile.Pattern

namespace FetchOData.Compile

/-- A text matches a pattern, read from left to right. A percent sign matches anything and an
underscore any one character. Both, and the opening bracket, stand for themselves between brackets,
and characters other than these three and the closing bracket do so everywhere. -/
inductive Like : List Char → List Char → Prop where
  | done : Like [] []
  | anything (before : List Char) (rest : Like cs s) : Like ('%' :: cs) (before ++ s)
  | anyone (c : Char) (rest : Like cs s) : Like ('_' :: cs) (c :: s)
  | bracketed (special : c ∈ ['%', '_', '[']) (rest : Like cs s) :
      Like ('[' :: c :: ']' :: cs) (c :: s)
  | plain (ordinary : c ∉ ['%', '_', '[', ']']) (rest : Like cs s) : Like (c :: cs) (c :: s)

theorem like_nil_iff {s : List Char} : Like [] s ↔ s = [] := by
  constructor
  · intro h
    cases h
    rfl
  · rintro rfl
    exact .done

theorem like_anything_iff {cs s : List Char} :
    Like ('%' :: cs) s ↔ ∃ before after, s = before ++ after ∧ Like cs after := by
  constructor
  · intro h
    cases h with
    | anything before rest => exact ⟨before, _, rfl, rest⟩
    | plain ordinary => simp at ordinary
  · rintro ⟨before, after, rfl, rest⟩
    exact .anything before rest

theorem like_bracketed_iff {c : Char} {cs s : List Char} (special : c ∈ ['%', '_', '[']) :
    Like ('[' :: c :: ']' :: cs) s ↔ ∃ after, s = c :: after ∧ Like cs after := by
  constructor
  · intro h
    cases h with
    | bracketed _ rest => exact ⟨_, rfl, rest⟩
    | plain ordinary => simp at ordinary
  · rintro ⟨after, rfl, rest⟩
    exact .bracketed special rest

theorem like_plain_iff {c : Char} {cs s : List Char} (ordinary : c ∉ ['%', '_', '[', ']']) :
    Like (c :: cs) s ↔ ∃ after, s = c :: after ∧ Like cs after := by
  constructor
  · intro h
    cases h with
    | plain _ rest => exact ⟨_, rfl, rest⟩
    | anything => simp at ordinary
    | anyone => simp at ordinary
    | bracketed => simp at ordinary
  · rintro ⟨after, rfl, rest⟩
    exact .plain ordinary rest

namespace Pattern

theorem isSpecial_eq_false_iff {c : Char} : isSpecial c = false ↔ c ∉ ['%', '_', '[', ']'] := by
  simp [isSpecial, and_assoc]

theorem plainText?_bracketed {c : Char} (special : c ∈ ['%', '_', '[']) (cs : List Char) :
    plainText? ('[' :: c :: ']' :: cs) = (c :: ·) <$> plainText? cs := by
  have mark : (c == '%' || c == '_' || c == '[') = true := by
    simpa [or_assoc] using special
  rw [plainText?, if_pos mark]

theorem plainText?_plain {c : Char} (ordinary : c ∉ ['%', '_', '[', ']']) (cs : List Char) :
    plainText? (c :: cs) = (c :: ·) <$> plainText? cs := by
  have mark : isSpecial c = false := isSpecial_eq_false_iff.mpr ordinary
  have other : c ≠ '[' := by
    rintro rfl
    simp at ordinary
  rw [plainText?]
  · simp [mark]
  · intro d rest h
    exact absurd h other

theorem exists_cons_iff {c : Char} {text s : List Char} {P : List Char → Prop} :
    (∃ tail, s = c :: tail ∧ ∃ after, tail = text ++ after ∧ P after) ↔
      ∃ after, s = c :: text ++ after ∧ P after := by
  constructor
  · rintro ⟨_, rfl, after, rfl, matched⟩
    exact ⟨after, rfl, matched⟩
  · rintro ⟨after, rfl, matched⟩
    exact ⟨_, rfl, after, rfl, matched⟩

/-- A pattern without wildcards matches its text and nothing else. -/
theorem like_append_iff {cs text : List Char} (h : plainText? cs = some text)
    (rest s : List Char) :
    Like (cs ++ rest) s ↔ ∃ after, s = text ++ after ∧ Like rest after := by
  fun_induction plainText? cs generalizing text s with
  | case1 =>
    cases h
    simp
  | case2 c cs mark ih =>
    obtain ⟨text, inner, rfl⟩ := Option.map_eq_some_iff.mp h
    have special : c ∈ ['%', '_', '['] := by simpa [or_assoc] using mark
    simp only [List.cons_append, like_bracketed_iff special, ih inner]
    exact exists_cons_iff
  | case3 c cs mark => cases h
  | case4 c cs mark => cases h
  | case5 c cs _ mark ih =>
    obtain ⟨text, inner, rfl⟩ := Option.map_eq_some_iff.mp h
    have ordinary := isSpecial_eq_false_iff.mp (Bool.eq_false_iff.mpr mark)
    simp only [List.cons_append, like_plain_iff ordinary, ih inner]
    exact exists_cons_iff

/-- What stands for one character: an ordinary character itself, a special one between brackets. -/
inductive Piece : List Char → Prop where
  | plain (ordinary : c ∉ ['%', '_', '[', ']']) : Piece [c]
  | bracketed (special : c ∈ ['%', '_', '[']) : Piece ['[', c, ']']

def Piecewise (cs : List Char) : Prop :=
  ∃ pieces : List (List Char), (∀ piece ∈ pieces, Piece piece) ∧ cs = pieces.flatten

theorem Piecewise.cons {piece cs : List Char} (head : Piece piece) (rest : Piecewise cs) :
    Piecewise (piece ++ cs) := by
  obtain ⟨pieces, each, rfl⟩ := rest
  exact ⟨piece :: pieces, List.forall_mem_cons.mpr ⟨head, each⟩, rfl⟩

theorem piecewise_of_plainText? {cs text : List Char} (h : plainText? cs = some text) :
    Piecewise cs := by
  fun_induction plainText? cs generalizing text with
  | case1 => exact ⟨[], by simp⟩
  | case2 c cs mark ih =>
    obtain ⟨text, inner, rfl⟩ := Option.map_eq_some_iff.mp h
    exact .cons (.bracketed (by simpa [or_assoc] using mark)) (ih inner)
  | case3 c cs mark => cases h
  | case4 c cs mark => cases h
  | case5 c cs _ mark ih =>
    obtain ⟨text, inner, rfl⟩ := Option.map_eq_some_iff.mp h
    exact .cons (.plain (isSpecial_eq_false_iff.mp (Bool.eq_false_iff.mpr mark))) (ih inner)

theorem isSome_plainText?_iff (cs : List Char) : (plainText? cs).isSome ↔ Piecewise cs := by
  constructor
  · intro h
    obtain ⟨text, ht⟩ := Option.isSome_iff_exists.mp h
    exact piecewise_of_plainText? ht
  · rintro ⟨pieces, each, rfl⟩
    induction pieces with
    | nil => rfl
    | cons piece pieces ih =>
      obtain ⟨head, rest⟩ := List.forall_mem_cons.mp each
      have inner := ih rest
      cases head with
      | plain ordinary =>
        change (plainText? (_ :: pieces.flatten)).isSome
        rw [plainText?_plain ordinary]
        simpa using inner
      | bracketed special =>
        change (plainText? ('[' :: _ :: ']' :: pieces.flatten)).isSome
        rw [plainText?_bracketed special]
        simpa using inner

def percent (present : Bool) : List Char :=
  if present then ['%'] else []

theorem like_percent_iff {present : Bool} {cs s : List Char} :
    Like (percent present ++ cs) s ↔
      ∃ before after, s = before ++ after ∧ (present = false → before = []) ∧ Like cs after := by
  cases present with
  | false => simp [percent]
  | true => simp [percent, like_anything_iff]

theorem like_end_iff {present : Bool} {s : List Char} :
    Like (percent present) s ↔ (present = false → s = []) := by
  cases present with
  | false => simp [percent, like_nil_iff]
  | true => simp [percent, like_anything_iff, like_nil_iff]

theorem splitLeading_spec (cs : List Char) :
    cs = percent (splitLeading cs).1 ++ (splitLeading cs).2 := by
  unfold splitLeading
  split <;> rfl

theorem splitTrailing_spec (cs : List Char) :
    cs = (splitTrailing cs).2 ++ percent (splitTrailing cs).1 := by
  unfold splitTrailing
  split
  · rename_i last
    exact (List.dropLast_append_getLast? '%' last).symm
  · simp [percent]

def inside (cs : List Char) : List Char :=
  let rest := if cs.head? = some '%' then cs.tail else cs
  if rest.getLast? = some '%' then rest.dropLast else rest

theorem inside_eq (cs : List Char) : inside cs = (splitTrailing (splitLeading cs).2).2 := by
  have front : (splitLeading cs).2 = if cs.head? = some '%' then cs.tail else cs := by
    unfold splitLeading
    split
    · rfl
    · rename_i other
      cases cs with
      | nil => rfl
      | cons c rest =>
        have apart : c ≠ '%' := by
          rintro rfl
          exact other rest rfl
        simp [apart]
  rw [front, inside]
  generalize (if cs.head? = some '%' then cs.tail else cs) = rest
  simp only [splitTrailing]
  split <;> rfl

theorem ofChars?_eq (cs : List Char) :
    ofChars? cs = (plainText? (inside cs)).map fun text =>
      ⟨text, (splitLeading cs).1, (splitTrailing (splitLeading cs).2).1⟩ := by
  rw [inside_eq]
  change (plainText? (splitTrailing (splitLeading cs).2).2 >>= fun text => pure _) = _
  cases plainText? (splitTrailing (splitLeading cs).2).2 <;> rfl

/-- A pattern that can be read is its inside with the percent signs it was read with. -/
theorem eq_of_ofChars? {cs : List Char} {p : Pattern} (h : ofChars? cs = some p) :
    cs = percent p.leading ++ (inside cs ++ percent p.trailing) ∧
      plainText? (inside cs) = some p.text := by
  rw [ofChars?_eq] at h
  obtain ⟨text, inner, rfl⟩ := Option.map_eq_some_iff.mp h
  refine ⟨?_, inner⟩
  rw [inside_eq, ← splitTrailing_spec, ← splitLeading_spec]

def Accepts (p : Pattern) (s : List Char) : Prop :=
  match p.leading, p.trailing with
  | false, false => s = p.text
  | true, false => p.text <:+ s
  | false, true => p.text <+: s
  | true, true => p.text <:+: s

instance : (p : Pattern) → (s : List Char) → Decidable (p.Accepts s)
  | ⟨text, false, false⟩, s => inferInstanceAs (Decidable (s = text))
  | ⟨text, true, false⟩, s => inferInstanceAs (Decidable (text <:+ s))
  | ⟨text, false, true⟩, s => inferInstanceAs (Decidable (text <+: s))
  | ⟨text, true, true⟩, s => inferInstanceAs (Decidable (text <:+: s))

theorem accepts_iff (p : Pattern) (s : List Char) :
    p.Accepts s ↔ ∃ before after, s = before ++ (p.text ++ after) ∧
      (p.leading = false → before = []) ∧ (p.trailing = false → after = []) := by
  obtain ⟨text, leading, trailing⟩ := p
  cases leading <;> cases trailing
  · simp [Accepts]
  · simp [Accepts, List.IsPrefix, eq_comm]
  · simp [Accepts, List.IsSuffix, eq_comm]
  · simp [Accepts, List.IsInfix, eq_comm]

theorem like_iff_accepts {cs : List Char} {p : Pattern} (h : ofChars? cs = some p)
    (s : List Char) : Like cs s ↔ p.Accepts s := by
  obtain ⟨shape, inner⟩ := eq_of_ofChars? h
  rw [shape, like_percent_iff, accepts_iff]
  simp only [like_append_iff inner, like_end_iff]
  constructor
  · rintro ⟨before, _, rfl, front, after, rfl, back⟩
    exact ⟨before, after, rfl, front, back⟩
  · rintro ⟨before, after, rfl, front, back⟩
    exact ⟨before, _, rfl, front, after, rfl, back⟩

/-- A pattern that can be read accepts exactly the texts that match it. The patterns that can be
read are those without wildcards once a percent sign is taken off either end. -/
theorem ofChars?_like_exact (value : String) :
    (∀ p, ofChars? value.toList = some p →
        ∀ s : String, Like value.toList s.toList ↔ p.Accepts s.toList) ∧
      ((ofChars? value.toList).isSome ↔ Piecewise (inside value.toList)) := by
  constructor
  · intro p h s
    exact like_iff_accepts h s.toList
  · rw [ofChars?_eq, Option.isSome_map, isSome_plainText?_iff]

/-- The percent sign at the end is a wildcard and the one between brackets is not. -/
theorem ofChars?_like_exact_discount :
    ofChars? "50[%] off%".toList = some ⟨"50% off".toList, false, true⟩ ∧
      Like "50[%] off%".toList "50% off today".toList ∧
      ¬ Like "50[%] off%".toList "50 cents off".toList := by
  have read : ofChars? "50[%] off%".toList = some ⟨"50% off".toList, false, true⟩ := by
    decide +kernel
  have matching := (ofChars?_like_exact "50[%] off%").1 _ read
  refine ⟨read, (matching "50% off today").mpr (by decide +kernel), ?_⟩
  rw [matching "50 cents off"]
  decide +kernel

end Pattern

end FetchOData.Compile
