import FetchOData.OData.Request

namespace FetchOData.OData

/-- The predicate stands in the groups, in groups inside them, or in what they ask of related
rows. -/
inductive Occurs (p : Predicate) : List Group → Prop where
  | predicate (group : g ∈ gs) (member : p ∈ g.predicates) : Occurs p gs
  | nested (group : g ∈ gs) (inner : Occurs p g.groups) : Occurs p gs
  | body (group : g ∈ gs)
      (member : .related negated path collection quantifier range body ∈ g.predicates)
      (inner : Occurs p body) : Occurs p gs

theorem Occurs.mono {p : Predicate} {gs hs : List Group} (h : Occurs p gs) (hsub : gs ⊆ hs) :
    Occurs p hs := by
  cases h with
  | predicate group member => exact .predicate (hsub group) member
  | nested group inner => exact .nested (hsub group) inner
  | body group member inner => exact .body (hsub group) member inner

theorem infix_intercalate (separator : String) {item : String} {items : List String}
    (h : item ∈ items) : item.toList <:+: (separator.intercalate items).toList := by
  induction items with
  | nil => cases h
  | cons first rest ih =>
    cases rest with
    | nil =>
      simp [List.mem_singleton.mp h]
    | cons second rest =>
      rw [String.intercalate_cons_cons]
      simp only [String.toList_append]
      rcases List.mem_cons.mp h with rfl | h
      · exact (List.prefix_append _ _).isInfix.trans (List.prefix_append _ _).isInfix
      · exact (ih h).trans (List.suffix_append _ _).isInfix

theorem infix_parenthesized (connective : Connective) {item : String} {items : List String}
    (h : item ∈ items) :
    ∃ text, parenthesized? connective items = some text ∧ item.toList <:+: text.toList := by
  have hne := List.isEmpty_eq_false_iff_exists_mem.mpr ⟨item, h⟩
  refine ⟨_, by simp only [parenthesized?, hne]; rfl, ?_⟩
  simp only [String.toList_append]
  exact (infix_intercalate _ h).trans (List.infix_append _ _ _)

theorem infix_conjunction {item : String} {items : List String} (h : item ∈ items) :
    ∃ text, conjunction? items = some text ∧ item.toList <:+: text.toList := by
  have hne := List.isEmpty_eq_false_iff_exists_mem.mpr ⟨item, h⟩
  exact ⟨_, by simp only [conjunction?, hne]; rfl, infix_intercalate _ h⟩

theorem Predicate.text_mem_texts {p : Predicate} {ps : List Predicate} (hp : p ∈ ps)
    (hne : p.text ≠ "") : p.text ∈ Predicate.texts ps := by
  induction ps with
  | nil => cases hp
  | cons q ps ih =>
    rw [Predicate.texts]
    rcases List.mem_cons.mp hp with rfl | hp
    · have hi : p.text.isEmpty = false := by simpa using hne
      simp [hi]
    · split
      · exact ih hp
      · exact List.mem_cons_of_mem _ (ih hp)

theorem Group.text_mem_texts {g : Group} {gs : List Group} {text : String} (hg : g ∈ gs)
    (ht : g.text? = some text) : text ∈ Group.texts gs := by
  induction gs with
  | nil => cases hg
  | cons f gs ih =>
    rw [Group.texts]
    rcases List.mem_cons.mp hg with rfl | hg
    · simp [ht]
    · split
      · exact List.mem_cons_of_mem _ (ih hg)
      · exact ih hg

/-- What one member of a group writes is part of what the group writes. -/
theorem Group.infix_texts {g : Group} {gs : List Group} {item : String} (hg : g ∈ gs)
    (h : item ∈ Predicate.texts g.predicates ++ Group.texts g.groups) :
    ∃ text ∈ Group.texts gs, item.toList <:+: text.toList := by
  obtain ⟨text, ht, hi⟩ := infix_parenthesized g.connective h
  refine ⟨text, Group.text_mem_texts hg ?_, hi⟩
  cases g
  rw [← ht, Group.text?]

theorem related_text_ne {negated : Bool} {path : Path} {collection : String}
    {quantifier : Query.Quantifier} {range : String} {body : List Group} :
    (Predicate.related negated path collection quantifier range body).text ≠ "" := by
  intro h
  have := congrArg String.toList h
  simp [Predicate.text] at this

theorem isNull_text_ne {property : Property} {negated : Bool} :
    (Predicate.isNull property negated).text ≠ "" := by
  intro h
  have := congrArg String.toList h
  cases negated <;> simp [Predicate.text] at this

theorem infix_related_text {negated : Bool} {path : Path} {collection : String}
    {quantifier : Query.Quantifier} {range : String} {body : List Group} {joined : String}
    (h : Group.conjunction? body = some joined) :
    joined.toList <:+:
      (Predicate.related negated path collection quantifier range body).text.toList := by
  unfold Group.conjunction? at h
  rw [Predicate.text, h]
  simp only [String.toList_append]
  exact ((List.suffix_append _ _).isInfix.trans (List.suffix_append _ _).isInfix).trans
    (List.prefix_append _ _).isInfix

theorem Occurs.infix_texts {p : Predicate} {gs : List Group} (h : Occurs p gs)
    (hne : p.text ≠ "") : ∃ text ∈ Group.texts gs, p.text.toList <:+: text.toList := by
  induction h with
  | predicate group member =>
    exact Group.infix_texts group
      (List.mem_append_left _ (Predicate.text_mem_texts member hne))
  | nested group inner ih =>
    obtain ⟨item, hm, hi⟩ := ih
    obtain ⟨text, ht, hj⟩ := Group.infix_texts group (List.mem_append_right _ hm)
    exact ⟨text, ht, hi.trans hj⟩
  | body group member inner ih =>
    obtain ⟨item, hm, hi⟩ := ih
    obtain ⟨joined, hj, hk⟩ := infix_conjunction hm
    obtain ⟨text, ht, hl⟩ := Group.infix_texts group
      (List.mem_append_left _ (Predicate.text_mem_texts member related_text_ne))
    exact ⟨text, ht, (hi.trans hk).trans ((infix_related_text hj).trans hl)⟩

/-- A predicate that stands in groups is part of the condition that they make. -/
theorem Occurs.infix_conjunction {p : Predicate} {gs : List Group} (h : Occurs p gs)
    (hne : p.text ≠ "") :
    ∃ text, Group.conjunction? gs = some text ∧ p.text.toList <:+: text.toList := by
  obtain ⟨item, hm, hi⟩ := h.infix_texts hne
  obtain ⟨text, ht, hj⟩ := OData.infix_conjunction hm
  exact ⟨text, ht, hi.trans hj⟩

inductive Expand.Within (e : Expand) : Expand → Prop where
  | self : Expand.Within e e
  | nested (member : f ∈ g.expand) (inner : Expand.Within e f) : Expand.Within e g

theorem infix_option (name : String) {item : String} {items : List String} (h : item ∈ items) :
    ∃ option, option? name items = some option ∧ item.toList <:+: option.toList := by
  have hne := List.isEmpty_eq_false_iff_exists_mem.mpr ⟨item, h⟩
  refine ⟨_, by simp only [option?, hne]; rfl, ?_⟩
  rw [String.toList_append]
  exact (infix_intercalate _ h).trans (List.suffix_append _ _).isInfix

theorem Expand.text_mem_texts {e : Expand} {es : List Expand} (h : e ∈ es) :
    e.text ∈ Expand.texts es := by
  induction es with
  | nil => cases h
  | cons f es ih =>
    rw [Expand.texts]
    rcases List.mem_cons.mp h with rfl | h
    · exact List.mem_cons_self
    · exact List.mem_cons_of_mem _ (ih h)

theorem Expand.option_in_text {e : Expand} {option : String} (h : option ∈ e.options) :
    option.toList <:+: e.text.toList := by
  have he : e.text = withOptions e.property e.options := by
    cases e
    rw [Expand.text]
    rfl
  have hne := List.isEmpty_eq_false_iff_exists_mem.mpr ⟨option, h⟩
  simp only [he, withOptions, hne, Bool.false_eq_true, if_false, String.toList_append]
  exact (infix_intercalate _ h).trans (List.infix_append _ _ _)

/-- The filter of an expanded property is part of one of the options it is expanded by. -/
theorem Expand.Within.filter_in_options {e f : Expand} {text : String} (h : e.Within f)
    (ht : Group.conjunction? e.filter = some text) :
    ∃ option ∈ f.options, ("$filter=" ++ text).toList <:+: option.toList := by
  induction h with
  | self =>
    refine ⟨"$filter=" ++ text, List.mem_append_right _ ?_, List.infix_rfl⟩
    simp [filterOption?, ht]
  | nested member inner ih =>
    obtain ⟨option, hm, hi⟩ := ih
    obtain ⟨whole, hw, hj⟩ := infix_option "expand" (Expand.text_mem_texts member)
    refine ⟨whole, List.mem_append_left _ (List.mem_append_right _ ?_),
      (hi.trans (Expand.option_in_text hm)).trans hj⟩
    simp [hw]

theorem Request.option_in_url {r : Request} {option : String} (base : String)
    (h : option ∈ r.options) : option.toList <:+: (r.url base).toList := by
  have hne := List.isEmpty_eq_false_iff_exists_mem.mpr ⟨option, h⟩
  simp only [Request.url, hne, Bool.false_eq_true, if_false, String.toList_append]
  exact (infix_intercalate _ h).trans (List.suffix_append _ _).isInfix

/-- A request for rows holds the filter of every property that it expands. -/
theorem Request.filter_in_url {r : Request} {e : Expand} {text : String} (base : String)
    (hr : r.isAggregate = false) (he : e.Within r.target)
    (ht : Group.conjunction? e.filter = some text) :
    ("$filter=" ++ text).toList <:+: (r.url base).toList := by
  obtain ⟨option, hm, hi⟩ := he.filter_in_options ht
  refine hi.trans (Request.option_in_url base ?_)
  simp only [Request.options, hr, Bool.false_eq_true, if_false]
  exact List.mem_append_left _ (List.mem_append_left _ hm)

end FetchOData.OData
