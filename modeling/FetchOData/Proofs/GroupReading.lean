import FetchOData.Proofs.NormalForm
import FetchOData.Proofs.SelfContained

namespace FetchOData

namespace Text

theorem map_toList_inj {xs ys : List String}
    (h : xs.map String.toList = ys.map String.toList) : xs = ys :=
  List.map_injective_iff.mpr (fun _ _ => String.toList_inj.mp) h

theorem words_inj {cs ds : List Char} (h : words cs = words ds) : cs = ds := by
  rw [← intercalate_words cs, h, intercalate_words]

theorem closed_connective (c : Connective) : Closed c.word.toList := by
  cases c <;> exact closed_of_plain (by decide)

theorem words_connective (c : Connective) : words c.word.toList = [c.word.toList] := by
  cases c <;> exact words_of_not_mem (not_mem_leveled (by decide) true)

theorem Unconnected.not_mem_words {cs : List Char} (h : Unconnected cs) (c : Connective) :
    c.word.toList ∉ words cs := by
  intro hm
  cases c with
  | and => exact (h _ hm).1 rfl
  | or => exact (h _ hm).2 rfl

section Connected

variable {c d : Connective} {items others : List (List Char)}

def connect (c : Connective) (items : List (List Char)) : List Char :=
  (' ' :: (c.word.toList ++ [' '])).intercalate items

theorem words_connect (hi : ∀ item ∈ items, Closed item) (hne : items ≠ []) :
    words (connect c items) = [c.word.toList].intercalate (items.map words) := by
  induction items with
  | nil => exact absurd rfl hne
  | cons item items ih =>
    obtain ⟨hitem, hrest⟩ := List.forall_mem_cons.mp hi
    cases items with
    | nil => simp [connect]
    | cons next items =>
      have joined : connect c (item :: next :: items) =
          item ++ ' ' :: (c.word.toList ++ ' ' :: connect c (next :: items)) := by
        simp [connect]
      rw [joined, words_separated hitem, words_separated (closed_connective c),
        ih hrest (List.cons_ne_nil _ _), words_connective]
      simp

/-- Closed, with no connective among the words. -/
def IsItem (cs : List Char) : Prop :=
  Closed cs ∧ Unconnected cs

/-- A connective among the words of items is the one that stands between them. -/
theorem connective_of_mem_words (hi : ∀ item ∈ items, IsItem item) (hne : items ≠ [])
    (h : d.word.toList ∈ words (connect c items)) : d = c := by
  rw [words_connect (fun item hm => (hi item hm).1) hne] at h
  induction items with
  | nil => exact absurd rfl hne
  | cons item items ih =>
    obtain ⟨hitem, hrest⟩ := List.forall_mem_cons.mp hi
    have outside := hitem.2.not_mem_words d
    cases items with
    | nil => exact absurd (by simpa using h) outside
    | cons next items =>
      simp only [List.map_cons, List.intercalate_cons_cons, List.mem_append,
        List.mem_singleton] at h ih
      rcases h with (h | h) | h
      · exact absurd h outside
      · revert h
        cases c <;> cases d <;> decide
      · exact ih hrest (List.cons_ne_nil _ _) h

/-- Two items have the connective between them. -/
theorem length_eq_one_of_ne (hi : ∀ item ∈ items, IsItem item)
    (ho : ∀ other ∈ others, IsItem other) (hne : items ≠ []) (hne' : others ≠ []) (hcd : c ≠ d)
    (h : connect c items = connect d others) : items.length = 1 := by
  match items, hne with
  | [item], _ => rfl
  | item :: next :: rest, hne =>
    have between : c.word.toList ∈ words (connect c (item :: next :: rest)) := by
      rw [words_connect (fun item hm => (hi item hm).1) hne]
      simp
    rw [h] at between
    exact absurd (connective_of_mem_words ho hne' between) hcd

/-- Items can be read back from what they are connected to. -/
theorem connect_inj (hi : ∀ item ∈ items, IsItem item) (ho : ∀ other ∈ others, IsItem other)
    (hne : items ≠ []) (hne' : others ≠ []) (h : connect c items = connect d others) :
    items = others ∧ (c = d ∨ items.length = 1) := by
  by_cases hcd : c = d
  · -- The words are split at the connective, which is none of the words of an item.
    subst hcd
    refine ⟨?_, Or.inl rfl⟩
    have split {xss : List (List Char)} (hx : ∀ xs ∈ xss, IsItem xs) (hne : xss ≠ []) :
        (words (connect c xss)).splitOn c.word.toList = xss.map words := by
      rw [words_connect (fun xs hm => (hx xs hm).1) hne]
      refine List.splitOn_intercalate _ (List.forall_mem_map.mpr fun xs hm => ?_) (by simpa using hne)
      exact (hx xs hm).2.not_mem_words c
    have := split hi hne
    rw [h, split ho hne'] at this
    exact List.map_injective_iff.mpr (fun _ _ => words_inj) this.symm
  · have one := length_eq_one_of_ne hi ho hne hne' hcd h
    have one' := length_eq_one_of_ne ho hi hne' hne (Ne.symm hcd) h.symm
    obtain ⟨item, rfl⟩ := List.length_eq_one_iff.mp one
    obtain ⟨other, rfl⟩ := List.length_eq_one_iff.mp one'
    refine ⟨?_, Or.inr one⟩
    simpa [connect] using h

end Connected

end Text

namespace OData
open Text

inductive Group.Readable : Group → Prop where
  | mk (predicates : ∀ p ∈ g.predicates, p.text ≠ "" → SelfContained p.text)
      (groups : ∀ nested ∈ g.groups, Group.Readable nested) : Group.Readable g

def Parenthesized (s : String) : Prop :=
  ∃ inside, Closed inside ∧ s.toList = '(' :: (inside ++ [')'])

theorem Parenthesized.head_eq {s : String} (h : Parenthesized s) : s.toList.head? = some '(' := by
  obtain ⟨inside, _, he⟩ := h
  rw [he]
  rfl

theorem Parenthesized.sealed {s : String} (h : Parenthesized s) {marks : List Char}
    (hm : '(' ∉ marks) : Sealed marks s.toList := by
  obtain ⟨inside, hc, he⟩ := h
  have empty : Sealed marks [] := sealed_of_plain (List.forall_mem_nil _)
  rw [he]
  exact empty.call hm hc

theorem Parenthesized.isItem {s : String} (h : Parenthesized s) : IsItem s.toList := by
  refine ⟨(h.sealed List.not_mem_nil).closed, ?_⟩
  obtain ⟨inside, hc, he⟩ := h
  rw [he]
  exact unconnected_call (List.forall_mem_nil _) hc

theorem Predicate.selfContained_texts {ps : List Predicate}
    (h : ∀ p ∈ ps, p.text ≠ "" → SelfContained p.text) :
    ∀ text ∈ Predicate.texts ps, SelfContained text := by
  intro text ht
  obtain ⟨⟨p, hp, rfl⟩, hne⟩ := Predicate.mem_texts.mp ht
  exact h p hp hne

theorem isItem_append {texts groups : List String} (ht : ∀ text ∈ texts, SelfContained text)
    (hg : ∀ text ∈ groups, Parenthesized text) : ∀ text ∈ texts ++ groups, IsItem text.toList :=
  List.forall_mem_append.mpr ⟨fun text hm => ⟨(ht text hm).closed, (ht text hm).words_ne⟩,
    fun text hm => (hg text hm).isItem⟩

theorem toList_connected (c : Connective) (items : List String) :
    ((" " ++ c.word ++ " ").intercalate items).toList = connect c (items.map String.toList) := by
  simp [connect]

theorem closed_connect {c : Connective} {items : List (List Char)} (h : ∀ item ∈ items, IsItem item) :
    Closed (connect c items) := by
  have separator : Sealed [] (' ' :: (c.word.toList ++ [' '])) := by
    cases c <;> exact sealed_of_plain (by decide)
  exact (separator.intercalate fun item hm =>
    ⟨(h item hm).1, List.forall_mem_nil _⟩).closed

/-- What is written in parentheses are its items, with a connective where there are two. -/
theorem parenthesized?_eq_some {c : Connective} {items : List String} {text : String}
    (h : parenthesized? c items = some text) :
    items ≠ [] ∧ text.toList = '(' :: (connect c (items.map String.toList) ++ [')']) := by
  unfold parenthesized? at h
  split at h
  · cases h
  · rename_i hne
    cases h
    refine ⟨by simpa using hne, ?_⟩
    rw [String.toList_append, String.toList_append, toList_connected]
    rfl

mutual
theorem Group.parenthesized_text? {g : Group} (h : g.Readable) {text : String}
    (ht : g.text? = some text) : Parenthesized text := by
  match g, h with
  | ⟨connective, predicates, groups⟩, .mk hp hg =>
    rw [Group.text?] at ht
    have items := isItem_append (Predicate.selfContained_texts hp) (Group.parenthesized_texts hg)
    exact ⟨_, closed_connect (List.forall_mem_map.mpr items), (parenthesized?_eq_some ht).2⟩
theorem Group.parenthesized_texts {gs : List Group} (h : ∀ g ∈ gs, g.Readable) :
    ∀ text ∈ Group.texts gs, Parenthesized text := by
  match gs with
  | [] => exact List.forall_mem_nil _
  | g :: gs =>
    obtain ⟨hg, hrest⟩ := List.forall_mem_cons.mp h
    have tail := Group.parenthesized_texts hrest
    rw [Group.texts]
    split
    · rename_i text ht
      exact List.forall_mem_cons.mpr ⟨Group.parenthesized_text? hg ht, tail⟩
    · exact tail
end

theorem connected_inj {c d : Connective} {items others : List String}
    (hi : ∀ item ∈ items, IsItem item.toList) (ho : ∀ other ∈ others, IsItem other.toList)
    (hne : items ≠ []) (hne' : others ≠ [])
    (h : connect c (items.map String.toList) = connect d (others.map String.toList)) :
    items = others ∧ (c = d ∨ items.length = 1) := by
  obtain ⟨same, flag⟩ := connect_inj (List.forall_mem_map.mpr hi) (List.forall_mem_map.mpr ho)
    (by simpa using hne) (by simpa using hne') h
  exact ⟨map_toList_inj same, by simpa using flag⟩

theorem parenthesized?_inj {c d : Connective} {items others : List String} {text : String}
    (hi : ∀ item ∈ items, IsItem item.toList) (ho : ∀ other ∈ others, IsItem other.toList)
    (h : parenthesized? c items = some text) (h' : parenthesized? d others = some text) :
    items = others ∧ (c = d ∨ items.length = 1) := by
  obtain ⟨hne, he⟩ := parenthesized?_eq_some h
  obtain ⟨hne', he'⟩ := parenthesized?_eq_some h'
  have inside := List.append_cancel_right (List.cons.inj (he.symm.trans he')).2
  exact connected_inj hi ho hne hne' inside

theorem conjunction?_inj {items others : List String}
    (hi : ∀ item ∈ items, IsItem item.toList) (ho : ∀ other ∈ others, IsItem other.toList)
    (h : conjunction? items = conjunction? others) : items = others := by
  unfold conjunction? at h
  split at h <;> split at h
  · simp_all
  · cases h
  · cases h
  · rename_i hne hne'
    have chars := congrArg String.toList (Option.some.inj h)
    change ((" " ++ Connective.and.word ++ " ").intercalate items).toList =
      ((" " ++ Connective.and.word ++ " ").intercalate others).toList at chars
    rw [toList_connected, toList_connected] at chars
    exact (connected_inj hi ho (by simpa using hne) (by simpa using hne') chars).1

/-- Conditions and groups are told apart by how they begin. -/
theorem append_inj_of_heads {texts texts' groups groups' : List String}
    (ht : ∀ text ∈ texts, SelfContained text) (ht' : ∀ text ∈ texts', SelfContained text)
    (hg : ∀ text ∈ groups, Parenthesized text) (hg' : ∀ text ∈ groups', Parenthesized text)
    (h : texts ++ groups = texts' ++ groups') : texts = texts' ∧ groups = groups' := by
  have conditions {xs ys : List String} (hx : ∀ x ∈ xs, SelfContained x)
      (hy : ∀ y ∈ ys, Parenthesized y) :
      (xs ++ ys).filter (fun s => s.toList.head? != some '(') = xs := by
    rw [List.filter_append, List.filter_eq_self.mpr, List.filter_eq_nil_iff.mpr, List.append_nil]
    · intro y hm
      simp [(hy y hm).head_eq]
    · intro x hm
      simpa using (hx x hm).head_ne
  have same : texts = texts' := by
    rw [← conditions ht hg, h, conditions ht' hg']
  subst same
  exact ⟨rfl, List.append_cancel_left h⟩

theorem Group.ofItems?_congr {c d : Connective} {texts : List String} {gs : List Group}
    (h : c = d ∨ texts.length + gs.length = 1) :
    Group.ofItems? c texts gs = Group.ofItems? d texts gs := by
  rcases h with rfl | h
  · rfl
  · simp only [Group.ofItems?, h]

/-- The first text of groups is that of the first group that has one. -/
theorem Group.texts_eq_cons {gs : List Group} {text : String} {rest : List String}
    (h : Group.texts gs = text :: rest) :
    ∃ g later, g ∈ gs ∧ later ⊆ gs ∧ g.text? = some text ∧ Group.texts later = rest ∧
      Group.normals gs = g.normal?.toList ++ Group.normals later := by
  rw [Group.texts_eq_filterMap, List.filterMap_eq_cons_iff] at h
  obtain ⟨silent, g, later, rfl, hs, hg, hl⟩ := h
  refine ⟨g, later, by simp, by simp, hg, by rw [Group.texts_eq_filterMap, hl], ?_⟩
  have none : silent.filterMap Group.normal? = [] := by
    rw [List.filterMap_eq_nil_iff]
    intro g hm
    have := Group.isSome_normal? g
    rw [hs g hm] at this
    simpa using this
  simp only [Group.normals_eq_filterMap, List.filterMap_append, none, List.nil_append,
    List.filterMap_cons]
  cases g.normal? <;> rfl

mutual
/-- Groups with one text are the same group, as far as they are written. -/
theorem Group.normal?_inj {g g' : Group} (h : g.Readable) (h' : g'.Readable) {text : String}
    (ht : g.text? = some text) (ht' : g'.text? = some text) : g.normal? = g'.normal? := by
  match g, g', h, h' with
  | ⟨c, ps, gs⟩, ⟨c', ps', gs'⟩, .mk hp hg, .mk hp' hg' =>
    rw [Group.text?] at ht ht'
    have texts := Predicate.selfContained_texts hp
    have texts' := Predicate.selfContained_texts hp'
    have groups := Group.parenthesized_texts hg
    have groups' := Group.parenthesized_texts hg'
    obtain ⟨items, flag⟩ := parenthesized?_inj (isItem_append texts groups)
      (isItem_append texts' groups') ht ht'
    obtain ⟨conditions, nested⟩ := append_inj_of_heads texts texts' groups groups' items
    rw [Group.normal?, Group.normal?, ← conditions, ← Group.normals_inj hg hg' nested]
    apply Group.ofItems?_congr
    rwa [List.length_append, ← Group.length_normals] at flag
theorem Group.normals_inj {gs gs' : List Group} (h : ∀ g ∈ gs, g.Readable)
    (h' : ∀ g ∈ gs', g.Readable) (ht : Group.texts gs = Group.texts gs') :
    Group.normals gs = Group.normals gs' := by
  match gs with
  | [] =>
    have none : (Group.normals gs').length = 0 := by
      rw [Group.length_normals, ← ht]
      rfl
    exact (List.eq_nil_of_length_eq_zero none).symm
  | g :: gs =>
    obtain ⟨hg, hrest⟩ := List.forall_mem_cons.mp h
    rw [Group.texts] at ht
    cases hn : g.text? with
    | none =>
      have unwritten : g.normal? = none := by
        simpa [hn] using Group.isSome_normal? g
      rw [hn] at ht
      rw [Group.normals, unwritten]
      exact Group.normals_inj hrest h' ht
    | some text =>
      -- On the other side, groups that are not written may come before the one with this text.
      rw [hn] at ht
      obtain ⟨g', later, hm, hl, hg', hrest', he⟩ := Group.texts_eq_cons ht.symm
      have tail := Group.normals_inj hrest (fun g hm => h' g (hl hm)) hrest'.symm
      rw [he, ← Group.normal?_inj hg (h' g' hm) hn hg', ← tail, Group.normals]
      cases g.normal? <;> rfl
end

end OData

end FetchOData
