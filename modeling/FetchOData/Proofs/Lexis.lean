import Mathlib.Data.List.Infix

namespace FetchOData.Text

/-- What holds of all members of a list is decided by going through the list, also where there is a
way to go through the whole type. -/
instance (priority := 1100) decidableForallMem (p : α → Prop) [DecidablePred p] (xs : List α) :
    Decidable (∀ x ∈ xs, p x) :=
  List.decidableBAll p xs

def isNameChar (c : Char) : Bool :=
  c.isAlphanum || c == '_'

def IsIdentifier (s : String) : Prop :=
  s ≠ "" ∧ ∀ c ∈ s.toList, isNameChar c = true

instance (s : String) : Decidable (IsIdentifier s) :=
  inferInstanceAs (Decidable (_ ∧ _))

def Avoids (banned : List Char) (s : String) : Prop :=
  ∀ c ∈ s.toList, c ∉ banned

instance (banned : List Char) (s : String) : Decidable (Avoids banned s) :=
  inferInstanceAs (Decidable (∀ c ∈ s.toList, c ∉ banned))

/-- What is open after some part of a text: quotes, and a number of parentheses. Parentheses in
quotes do not count. -/
structure Mark where
  quoted : Bool := false
  depth : Int := 0
deriving DecidableEq

namespace Mark

def after (m : Mark) (c : Char) : Mark :=
  if c = '\x27' then { m with quoted := !m.quoted }
  else if m.quoted then m
  else if c = '(' then { m with depth := m.depth + 1 }
  else if c = ')' then { m with depth := m.depth - 1 }
  else m

def read (m : Mark) (cs : List Char) : Mark :=
  cs.foldl after m

def onSurface (m : Mark) : Bool :=
  !m.quoted && m.depth == 0

end Mark

/-- The quotes come in pairs, and every parenthesis outside of them has its partner. -/
structure Closed (cs : List Char) : Prop where
  quotes : cs.count '\x27' % 2 = 0
  nonneg (p : List Char) (hp : p <+: cs) : 0 ≤ (Mark.read {} p).depth
  level : (Mark.read {} cs).depth = 0

def leveled (m : Mark) : List Char → List (Char × Bool)
  | [] => []
  | c :: cs => (c, m.onSurface) :: leveled (m.after c) cs

def words (cs : List Char) : List (List Char) :=
  ((leveled {} cs).splitOn (' ', true)).map (·.map Prod.fst)

/-- A text that keeps to itself wherever it is put between parentheses and connectives. -/
structure SelfContained (s : String) : Prop where
  ne_empty : s ≠ ""
  head_ne : s.toList.head? ≠ some '('
  closed : Closed s.toList
  words_ne (w : List Char) (hw : w ∈ words s.toList) : w ≠ "and".toList ∧ w ≠ "or".toList

structure Sealed (marks cs : List Char) : Prop where
  closed : Closed cs
  surface (c : Char) (hc : c ∈ marks) : (c, true) ∉ leveled {} cs

theorem avoids_append {banned : List Char} {s t : String} :
    Avoids banned (s ++ t) ↔ Avoids banned s ∧ Avoids banned t := by
  simp only [Avoids, String.toList_append, List.mem_append]
  constructor
  · intro h
    exact ⟨fun c hc => h c (Or.inl hc), fun c hc => h c (Or.inr hc)⟩
  · rintro ⟨hs, ht⟩ c (hc | hc)
    · exact hs c hc
    · exact ht c hc

theorem avoids_intercalate {banned : List Char} {separator : String} {items : List String}
    (hs : Avoids banned separator) (hi : ∀ item ∈ items, Avoids banned item) :
    Avoids banned (separator.intercalate items) := by
  induction items with
  | nil => simp [Avoids]
  | cons item items ih =>
    have hitem := hi item List.mem_cons_self
    have hrest := ih fun i h => hi i (List.mem_cons_of_mem _ h)
    cases items with
    | nil => simpa using hitem
    | cons next items =>
      rw [String.intercalate_cons_cons]
      exact avoids_append.mpr ⟨avoids_append.mpr ⟨hitem, hs⟩, hrest⟩

theorem not_mem_of_name {w : List Char} (h : ∀ c ∈ w, isNameChar c = true) {c : Char}
    (hc : isNameChar c = false) : c ∉ w := by
  intro hm
  rw [h c hm] at hc
  cases hc

theorem apart_of_name {w banned : List Char} (h : ∀ c ∈ w, isNameChar c = true)
    (hb : ∀ c ∈ banned, isNameChar c = false) : ∀ c ∈ w, c ∉ banned :=
  fun c hc hm => not_mem_of_name h (hb c hm) hc

theorem IsIdentifier.avoids {s : String} (h : IsIdentifier s) {banned : List Char}
    (hb : ∀ c ∈ banned, isNameChar c = false) : Avoids banned s :=
  apart_of_name h.2 hb

/-- The property of a lookup is named like the lookup. -/
theorem IsIdentifier.lookup {s : String} (h : IsIdentifier s) :
    IsIdentifier ("_" ++ s ++ "_value") := by
  constructor
  · intro he
    have := congrArg String.toList he
    simp at this
  · intro c hc
    simp only [String.toList_append, List.mem_append] at hc
    have ends : ∀ c ∈ "_".toList ++ "_value".toList, isNameChar c = true := by decide
    rcases hc with (hc | hc) | hc
    · exact ends c (List.mem_append_left _ hc)
    · exact h.2 c hc
    · exact ends c (List.mem_append_right _ hc)

namespace Mark

@[simp] theorem read_nil (m : Mark) : m.read [] = m :=
  rfl

@[simp] theorem read_cons (m : Mark) (c : Char) (cs : List Char) :
    m.read (c :: cs) = (m.after c).read cs :=
  rfl

@[simp] theorem read_append (m : Mark) (cs ds : List Char) :
    m.read (cs ++ ds) = (m.read cs).read ds :=
  List.foldl_append

theorem quoted_read (m : Mark) (cs : List Char) :
    (m.read cs).quoted = (m.quoted ^^ decide (cs.count '\x27' % 2 = 1)) := by
  induction cs generalizing m with
  | nil => simp
  | cons c cs ih =>
    rw [read_cons, ih, List.count_cons]
    by_cases hc : c = '\x27'
    · subst hc
      simp only [after, if_true, beq_self_eq_true]
      cases m.quoted <;>
        rcases Nat.mod_two_eq_zero_or_one (cs.count '\x27') with h | h <;> simp [Nat.add_mod, h]
    · have hq : (m.after c).quoted = m.quoted := by
        simp only [after, hc, if_false]
        repeat' split
        all_goals rfl
      simp [hq, hc]

/-- How deep a text begins adds to how deep it leads. -/
theorem read_shift (q : Bool) (d : Int) (cs : List Char) :
    (read ⟨q, d⟩ cs).depth = d + (read ⟨q, 0⟩ cs).depth := by
  induction cs generalizing q d with
  | nil => simp
  | cons c cs ih =>
    simp only [read_cons, after]
    split
    · exact ih _ _
    · split
      · exact ih _ _
      · split
        · rw [ih q (d + 1), ih q (0 + 1)]
          omega
        · split
          · rw [ih q (d - 1), ih q (0 - 1)]
            omega
          · exact ih _ _

theorem after_of_plain {m : Mark} {c : Char} (h : c ∉ ['\x27', '(', ')']) : m.after c = m := by
  simp only [List.mem_cons, List.not_mem_nil, or_false, not_or] at h
  simp [after, h]

theorem read_of_plain {m : Mark} {cs : List Char} (h : ∀ c ∈ cs, c ∉ ['\x27', '(', ')']) :
    m.read cs = m := by
  induction cs with
  | nil => rfl
  | cons c cs ih =>
    rw [read_cons, after_of_plain (h c List.mem_cons_self)]
    exact ih fun d hd => h d (List.mem_cons_of_mem _ hd)

/-- In quotes, nothing but a quote matters. -/
theorem read_of_quoted {d : Int} {cs : List Char} (h : '\x27' ∉ cs) :
    read ⟨true, d⟩ cs = ⟨true, d⟩ := by
  induction cs with
  | nil => rfl
  | cons c cs ih =>
    obtain ⟨hc, hs⟩ := not_or.mp (List.mem_cons.not.mp h)
    rw [read_cons, after, if_neg (Ne.symm hc), if_pos rfl]
    exact ih hs

end Mark

/-- A closed text leaves open what was open before it. -/
theorem Closed.read_eq {cs : List Char} (h : Closed cs) (d : Int) :
    Mark.read ⟨false, d⟩ cs = ⟨false, d⟩ := by
  have hq := Mark.quoted_read ⟨false, d⟩ cs
  have hd := Mark.read_shift false d cs
  have hl := h.level
  rw [h.quotes] at hq
  cases hm : Mark.read ⟨false, d⟩ cs with
  | mk quoted depth =>
    rw [hm] at hq hd
    simp_all

theorem closed_of_plain {cs : List Char} (h : ∀ c ∈ cs, c ∉ ['\x27', '(', ')']) : Closed cs where
  quotes := by
    rw [List.count_eq_zero_of_not_mem fun hm => h _ hm List.mem_cons_self]
  nonneg p hp := by
    have unmarked : Mark.read {} p = {} := Mark.read_of_plain fun c hc => h c (hp.subset hc)
    simp [unmarked]
  level := by rw [Mark.read_of_plain h]

theorem closed_of_name {cs : List Char} (h : ∀ c ∈ cs, isNameChar c = true) : Closed cs :=
  closed_of_plain (apart_of_name h (by decide))

theorem Closed.append {cs ds : List Char} (hc : Closed cs) (hd : Closed ds) : Closed (cs ++ ds) where
  quotes := by
    have := hc.quotes
    have := hd.quotes
    rw [List.count_append]
    omega
  nonneg p hp := by
    rcases List.prefix_or_prefix_of_prefix hp (List.prefix_append cs ds) with h | ⟨e, rfl⟩
    · exact hc.nonneg p h
    · rw [Mark.read_append, hc.read_eq]
      exact hd.nonneg e ((List.prefix_append_right_inj cs).mp hp)
  level := by
    rw [Mark.read_append, hc.read_eq]
    exact hd.level

theorem Closed.parenthesized {cs : List Char} (h : Closed cs) : Closed ('(' :: cs ++ [')']) where
  quotes := by
    have := h.quotes
    simpa [List.count_cons, List.count_append] using this
  nonneg p hp := by
    have one (ds : List Char) : (Mark.read {} ('(' :: ds)).depth = 1 + (Mark.read {} ds).depth :=
      Mark.read_shift false 1 ds
    rcases List.prefix_concat_iff.mp hp with rfl | hp
    · rw [Mark.read_append, Mark.read_cons]
      change 0 ≤ (Mark.read (Mark.read ⟨false, 1⟩ cs) [')']).depth
      rw [h.read_eq]
      decide
    · rcases List.prefix_cons_iff.mp hp with rfl | ⟨ds, rfl, hds⟩
      · exact Int.le_refl 0
      · have := h.nonneg ds hds
        rw [one]
        omega
  level := by
    rw [Mark.read_append, Mark.read_cons]
    change (Mark.read (Mark.read ⟨false, 1⟩ cs) [')']).depth = 0
    rw [h.read_eq]
    rfl

theorem closed_of_quoted {cs : List Char} (h : '\x27' ∉ cs) :
    Closed ('\x27' :: cs ++ ['\x27']) where
  quotes := by simp [List.count_append, List.count_eq_zero_of_not_mem h]
  nonneg p hp := by
    rcases List.prefix_concat_iff.mp hp with rfl | hp
    · rw [Mark.read_append, Mark.read_cons]
      change 0 ≤ (Mark.read (Mark.read ⟨true, 0⟩ cs) ['\x27']).depth
      rw [Mark.read_of_quoted h]
      decide
    · rcases List.prefix_cons_iff.mp hp with rfl | ⟨ds, rfl, hds⟩
      · exact Int.le_refl 0
      · have quoted : Mark.read ⟨true, 0⟩ ds = ⟨true, 0⟩ :=
          Mark.read_of_quoted fun hm => h (hds.subset hm)
        change 0 ≤ (Mark.read ⟨true, 0⟩ ds).depth
        simp [quoted]
  level := by
    rw [Mark.read_append, Mark.read_cons]
    change (Mark.read (Mark.read ⟨true, 0⟩ cs) ['\x27']).depth = 0
    rw [Mark.read_of_quoted h]
    rfl

theorem leveled_append (m : Mark) (cs ds : List Char) :
    leveled m (cs ++ ds) = leveled m cs ++ leveled (m.read cs) ds := by
  induction cs generalizing m with
  | nil => rfl
  | cons c cs ih =>
    rw [List.cons_append, leveled, leveled, ih]
    rfl

@[simp] theorem map_fst_leveled (m : Mark) (cs : List Char) : (leveled m cs).map Prod.fst = cs := by
  induction cs generalizing m with
  | nil => rfl
  | cons c cs ih => rw [leveled, List.map_cons, ih]

/-- A separator between closed texts stands on the surface. -/
theorem leveled_separated {cs : List Char} (h : Closed cs) {c : Char} (hc : c ∉ ['\x27', '(', ')'])
    (ds : List Char) : leveled {} (cs ++ c :: ds) = leveled {} cs ++ (c, true) :: leveled {} ds := by
  rw [leveled_append, h.read_eq, leveled, Mark.after_of_plain hc]
  rfl

theorem not_mem_leveled {c : Char} {cs : List Char} (h : c ∉ cs) (b : Bool) :
    (c, b) ∉ leveled {} cs := by
  intro hm
  have := List.mem_map_of_mem (f := Prod.fst) hm
  rw [map_fst_leveled] at this
  exact h this

/-- A character on the surface has a text before it that leaves nothing open. -/
theorem mem_leveled {m : Mark} {cs : List Char} {c : Char} {b : Bool} (h : (c, b) ∈ leveled m cs) :
    ∃ before after, cs = before ++ c :: after ∧ b = (m.read before).onSurface := by
  induction cs generalizing m with
  | nil => cases h
  | cons d cs ih =>
    rw [leveled] at h
    rcases List.mem_cons.mp h with he | h
    · cases he
      exact ⟨[], cs, rfl, rfl⟩
    · obtain ⟨before, after, rfl, hb⟩ := ih h
      exact ⟨d :: before, after, rfl, hb⟩

/-- Nothing in parentheses stands on the surface. -/
theorem surface_not_mem_parenthesized {cs : List Char} (h : Closed cs) (c : Char) :
    (c, true) ∉ leveled ⟨false, 1⟩ cs := by
  intro hm
  obtain ⟨before, after, rfl, hb⟩ := mem_leveled hm
  have hd := Mark.read_shift false 1 before
  have hn := h.nonneg before (List.prefix_append _ _)
  have hs : (Mark.read ⟨false, 1⟩ before).depth = 0 := by
    simp only [Mark.onSurface] at hb
    simpa using (Bool.and_eq_true_iff.mp hb.symm).2
  change 0 ≤ (Mark.read ⟨false, 0⟩ before).depth at hn
  omega

section Sealed

variable {marks cs ds : List Char}

theorem sealed_of_plain (h : ∀ c ∈ cs, c ∉ ['\x27', '(', ')'] ∧ c ∉ marks) : Sealed marks cs where
  closed := closed_of_plain fun c hc => (h c hc).1
  surface _ hm := not_mem_leveled (fun hc => (h _ hc).2 hm) true

theorem Sealed.mono {fewer : List Char} (h : Sealed marks cs) (hm : fewer ⊆ marks) :
    Sealed fewer cs :=
  ⟨h.closed, fun c hc => h.surface c (hm hc)⟩

theorem Sealed.append (h : Sealed marks cs) (h' : Sealed marks ds) : Sealed marks (cs ++ ds) where
  closed := h.closed.append h'.closed
  surface c hc hm := by
    rw [leveled_append, h.closed.read_eq] at hm
    rcases List.mem_append.mp hm with hm | hm
    · exact h.surface c hc hm
    · exact h'.surface c hc hm

/-- What stands in parentheses does not matter on the surface. -/
theorem Sealed.call (h : Sealed marks cs) (hp : '(' ∉ marks) (inside : Closed ds) :
    Sealed marks (cs ++ '(' :: (ds ++ [')'])) where
  closed := h.closed.append inside.parenthesized
  surface c hc hm := by
    rw [leveled_append, h.closed.read_eq, leveled] at hm
    rcases List.mem_append.mp hm with hm | hm
    · exact h.surface c hc hm
    · rcases List.mem_cons.mp hm with he | hm
      · cases he
        exact hp hc
      · rw [leveled_append] at hm
        rcases List.mem_append.mp hm with hm | hm
        · exact surface_not_mem_parenthesized inside c hm
        · change (c, true) ∈ [(')', (Mark.read ⟨false, 1⟩ ds).onSurface)] at hm
          rw [inside.read_eq] at hm
          cases List.mem_singleton.mp hm

theorem Sealed.intercalate {separator : List Char} {items : List (List Char)}
    (hs : Sealed marks separator) (hi : ∀ item ∈ items, Sealed marks item) :
    Sealed marks (separator.intercalate items) := by
  induction items with
  | nil => exact sealed_of_plain (List.forall_mem_nil _)
  | cons item items ih =>
    obtain ⟨hitem, hrest⟩ := List.forall_mem_cons.mp hi
    cases items with
    | nil => simpa using hitem
    | cons next items =>
      rw [List.intercalate_cons_cons]
      exact (hitem.append hs).append (ih hrest)

theorem leveled_intercalate {c : Char} (hc : c ∉ ['\x27', '(', ')']) {items : List (List Char)}
    (hi : ∀ item ∈ items, Closed item) :
    leveled {} ([c].intercalate items) = [(c, true)].intercalate (items.map (leveled {})) := by
  induction items with
  | nil => rfl
  | cons item items ih =>
    obtain ⟨hitem, hrest⟩ := List.forall_mem_cons.mp hi
    cases items with
    | nil => simp
    | cons next items =>
      rw [List.intercalate_cons_cons, List.append_assoc, List.singleton_append,
        leveled_separated hitem hc, ih hrest]
      simp

/-- Sealed texts can be read back from what they are joined to. -/
theorem intercalate_inj {c : Char} (hc : c ∉ ['\x27', '(', ')']) (hm : c ∈ marks)
    {items others : List (List Char)} (hi : ∀ item ∈ items, Sealed marks item)
    (ho : ∀ other ∈ others, Sealed marks other) (hne : items ≠ []) (hne' : others ≠ [])
    (h : [c].intercalate items = [c].intercalate others) : items = others := by
  have split {xss : List (List Char)} (hx : ∀ xs ∈ xss, Sealed marks xs) (hne : xss ≠ []) :
      (((leveled {} ([c].intercalate xss)).splitOn (c, true)).map (·.map Prod.fst)) = xss := by
    rw [leveled_intercalate hc fun xs hxs => (hx xs hxs).closed,
      List.splitOn_intercalate (c, true) ?_ (by simpa using hne)]
    · simp [Function.comp_def]
    · intro l hl
      obtain ⟨xs, hxs, rfl⟩ := List.mem_map.mp hl
      exact (hx xs hxs).surface c hm
  rw [← split hi hne, h, split ho hne']

end Sealed

theorem words_separated {cs : List Char} (h : Closed cs) (ds : List Char) :
    words (cs ++ ' ' :: ds) = words cs ++ words ds := by
  rw [words, leveled_separated h (by decide), List.splitOn_append_cons_self, List.map_append]
  rfl

/-- A text with no space on its surface is one word. -/
theorem words_of_not_mem {cs : List Char} (h : (' ', true) ∉ leveled {} cs) : words cs = [cs] := by
  rw [words, List.splitOn_eq_singleton h, List.map_singleton, map_fst_leveled]

theorem map_intercalate (f : α → β) (a : α) (xss : List (List α)) :
    ([a].intercalate xss).map f = [f a].intercalate (xss.map (·.map f)) := by
  induction xss with
  | nil => rfl
  | cons xs xss ih =>
    cases xss with
    | nil => simp
    | cons ys xss =>
      simp only [List.map_cons, List.intercalate_cons_cons, List.map_append] at ih ⊢
      rw [ih]
      rfl

/-- A text is made of its words again. -/
theorem intercalate_words (cs : List Char) : [' '].intercalate (words cs) = cs := by
  have h := map_intercalate Prod.fst (' ', true) ((leveled {} cs).splitOn (' ', true))
  rw [List.intercalate_splitOn, map_fst_leveled] at h
  exact h.symm

end FetchOData.Text
