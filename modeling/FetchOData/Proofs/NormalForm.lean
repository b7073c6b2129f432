import FetchOData.OData.Request

namespace FetchOData.OData

/-- A group of the texts and groups that are written. Its connective counts only where it stands
between two of them. -/
def Group.ofItems? (connective : Connective) (texts : List String) (groups : List Group) :
    Option Group :=
  match texts.length + groups.length with
  | 0 => none
  | 1 => some ⟨.and, texts.map .verbatim, groups⟩
  | _ => some ⟨connective, texts.map .verbatim, groups⟩

mutual
def Group.normal? : Group → Option Group
  | ⟨connective, predicates, groups⟩ =>
    Group.ofItems? connective (Predicate.texts predicates) (Group.normals groups)
def Group.normals : List Group → List Group
  | [] => []
  | g :: gs =>
    match g.normal? with
    | some n => n :: Group.normals gs
    | none => Group.normals gs
end

mutual
def Expand.normal : Expand → Expand
  | ⟨property, select, expand, filter⟩ =>
    ⟨property, select, Expand.normals expand, Group.normals filter⟩
def Expand.normals : List Expand → List Expand
  | [] => []
  | e :: es => e.normal :: Expand.normals es
end

theorem Group.texts_eq_filterMap (gs : List Group) : Group.texts gs = gs.filterMap Group.text? := by
  induction gs with
  | nil => rfl
  | cons g gs ih =>
    rw [Group.texts, List.filterMap_cons, ih]
    cases g.text? <;> rfl

theorem Group.texts_append (gs hs : List Group) :
    Group.texts (gs ++ hs) = Group.texts gs ++ Group.texts hs := by
  rw [Group.texts_eq_filterMap, List.filterMap_append, ← Group.texts_eq_filterMap,
    ← Group.texts_eq_filterMap]

theorem Group.normals_eq_filterMap (gs : List Group) :
    Group.normals gs = gs.filterMap Group.normal? := by
  induction gs with
  | nil => rfl
  | cons g gs ih =>
    rw [Group.normals, List.filterMap_cons, ih]
    cases g.normal? <;> rfl

theorem Predicate.texts_eq_filter (ps : List Predicate) :
    Predicate.texts ps = (ps.map Predicate.text).filter fun text => !text.isEmpty := by
  induction ps with
  | nil => rfl
  | cons p ps ih =>
    rw [Predicate.texts, List.map_cons, List.filter_cons, ih]
    cases p.text.isEmpty <;> rfl

theorem Predicate.texts_append (ps qs : List Predicate) :
    Predicate.texts (ps ++ qs) = Predicate.texts ps ++ Predicate.texts qs := by
  rw [Predicate.texts_eq_filter, List.map_append, List.filter_append, ← Predicate.texts_eq_filter,
    ← Predicate.texts_eq_filter]

theorem Predicate.mem_texts {ps : List Predicate} {text : String} :
    text ∈ Predicate.texts ps ↔ (∃ p ∈ ps, p.text = text) ∧ text ≠ "" := by
  rw [Predicate.texts_eq_filter, List.mem_filter, List.mem_map]
  simp

theorem Predicate.texts_verbatim {texts : List String} (h : ∀ text ∈ texts, text ≠ "") :
    Predicate.texts (texts.map .verbatim) = texts := by
  have same : Predicate.text ∘ Predicate.verbatim = id := by
    funext text
    simp [Predicate.text]
  rw [Predicate.texts_eq_filter, List.map_map, same, List.map_id, List.filter_eq_self]
  intro text hm
  simpa using h text hm

/-- A connective counts only between two items. -/
theorem parenthesized?_of_length_le_one {items : List String} (h : items.length ≤ 1)
    (c d : Connective) : parenthesized? c items = parenthesized? d items := by
  match items with
  | [] => rfl
  | [item] => simp [parenthesized?]

theorem Group.isSome_ofItems? {c : Connective} {texts : List String} {gs : List Group} :
    (Group.ofItems? c texts gs).isSome = !(texts.length + gs.length == 0) := by
  unfold Group.ofItems?
  split <;> simp_all

theorem isSome_parenthesized? {c : Connective} {items : List String} :
    (parenthesized? c items).isSome = !(items.length == 0) := by
  cases items <;> simp [parenthesized?]

mutual
theorem Group.isSome_normal? (g : Group) : g.normal?.isSome = g.text?.isSome := by
  match g with
  | ⟨connective, predicates, groups⟩ =>
    rw [Group.normal?, Group.text?, Group.isSome_ofItems?, isSome_parenthesized?,
      List.length_append, Group.length_normals groups]
theorem Group.length_normals (gs : List Group) :
    (Group.normals gs).length = (Group.texts gs).length := by
  match gs with
  | [] => rfl
  | g :: gs =>
    have head := Group.isSome_normal? g
    have tail := Group.length_normals gs
    rw [Group.normals, Group.texts]
    cases hn : g.normal? <;> cases ht : g.text? <;> simp_all
end

theorem Group.text_ofItems? {c : Connective} {texts : List String} {gs : List Group}
    (ht : ∀ text ∈ texts, text ≠ "") (hg : (Group.texts gs).length = gs.length) :
    (Group.ofItems? c texts gs).bind Group.text? = parenthesized? c (texts ++ Group.texts gs) := by
  have length : (texts ++ Group.texts gs).length = texts.length + gs.length := by
    rw [List.length_append, hg]
  unfold Group.ofItems?
  split
  · rename_i none
    have empty : texts ++ Group.texts gs = [] := List.eq_nil_of_length_eq_zero (by omega)
    rw [empty]
    rfl
  · rename_i one
    rw [Option.bind_some, Group.text?, Predicate.texts_verbatim ht]
    exact parenthesized?_of_length_le_one (by omega) _ _
  · rw [Option.bind_some, Group.text?, Predicate.texts_verbatim ht]

mutual
/-- What is left out of a group is not written. -/
theorem Group.text_normal? (g : Group) : g.normal?.bind Group.text? = g.text? := by
  match g with
  | ⟨connective, predicates, groups⟩ =>
    have nested := Group.texts_normals groups
    rw [Group.normal?, Group.text_ofItems? (fun _ ht => (Predicate.mem_texts.mp ht).2), nested,
      Group.text?]
    rw [nested, Group.length_normals]
theorem Group.texts_normals (gs : List Group) : Group.texts (Group.normals gs) = Group.texts gs := by
  match gs with
  | [] => rfl
  | g :: gs =>
    have head := Group.text_normal? g
    have tail := Group.texts_normals gs
    rw [Group.normals, Group.texts, ← head]
    cases hn : g.normal? with
    | none => exact tail
    | some n => simp [Group.texts, tail]
end

theorem filterOption?_normals (gs : List Group) :
    filterOption? (Group.normals gs) = filterOption? gs := by
  unfold filterOption? Group.conjunction?
  rw [Group.texts_normals]

mutual
theorem Expand.text_normal (e : Expand) : e.normal.text = e.text := by
  match e with
  | ⟨property, select, expand, filter⟩ =>
    rw [Expand.normal, Expand.text, Expand.text, rowOptions, rowOptions, filterOption?_normals,
      Expand.texts_normals expand]
theorem Expand.texts_normals (es : List Expand) :
    Expand.texts (Expand.normals es) = Expand.texts es := by
  match es with
  | [] => rfl
  | e :: es => rw [Expand.normals, Expand.texts, Expand.texts, Expand.text_normal e,
      Expand.texts_normals es]
end

end FetchOData.OData
