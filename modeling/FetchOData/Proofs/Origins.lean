import FetchOData.Proofs.JoinRules
import FetchOData.Proofs.Occurrence

namespace FetchOData

/-- Among the items, or further down among what one of them contains. -/
inductive Below (inside : α → List α) (x : α) : List α → Prop where
  | here (member : x ∈ xs) : Below inside x xs
  | deeper {above : α} (member : above ∈ xs) (inner : Below inside x (inside above)) :
      Below inside x xs

theorem Below.mono {inside : α → List α} {x : α} {xs ys : List α} (h : Below inside x xs)
    (hsub : xs ⊆ ys) : Below inside x ys := by
  cases h with
  | here member => exact .here (hsub member)
  | deeper member inner => exact .deeper (hsub member) inner

theorem Below.eq_of_leaf {inside : α → List α} {x y : α} (h : Below inside x [y])
    (leaf : inside y = []) : x = y := by
  cases h with
  | here member => exact List.mem_singleton.mp member
  | deeper member inner =>
    rw [List.mem_singleton.mp member, leaf] at inner
    cases inner with
    | here member => cases member
    | deeper member => cases member

theorem exists_of_forall₂_mem {R : α → β → Prop} {xs : List α} {ys : List β}
    (h : List.Forall₂ R xs ys) {x : α} (hx : x ∈ xs) : ∃ y ∈ ys, R x y := by
  induction h with
  | nil => cases hx
  | cons hr _ ih =>
    rcases List.mem_cons.mp hx with rfl | hx
    · exact ⟨_, List.mem_cons_self, hr⟩
    · obtain ⟨y, hy, hxy⟩ := ih hx
      exact ⟨y, List.mem_cons_of_mem _ hy, hxy⟩

namespace OData

def Predicate.path? : Predicate → Option Path
  | .verbatim _ => none
  | .compare property _ _ => some property.path
  | .isNull property _ => some property.path
  | .test _ _ path _ _ => some path
  | .call path _ _ _ => some path
  | .related _ path _ _ _ _ => some path

theorem Occurs.of_below {p : Predicate} {g : Group} {gs : List Group}
    (h : Below Group.groups g gs) (hp : p ∈ g.predicates) : Occurs p gs := by
  induction h with
  | here member => exact .predicate member hp
  | deeper member inner ih => exact .nested member ih

end OData

namespace Compile
open Query OData

variable {t : Snapshot} {root : Query.Entity}

inductive RelatedBy (t : Snapshot) (root : Query.Entity) (site : Site) (link : Link) :
    Predicate → Prop where
  | mk {v : Variables} (kind : link.join.kind = .related quantifier negated)
      (resolves : Resolves t site.entity link n)
      (reading : Filter.reading negated (target n.route link).filters = .ok filters)
      (body : GroupsOf t root ⟨(target n.route link).name, [v.lambda]⟩ v.afterLambda
        (Filter.nonEmpty filters) gs v') :
      RelatedBy t root site link (.related negated site.path n.property quantifier v.lambda gs)

structure Grouped (t : Snapshot) (root : Query.Entity) (site : Site) (f : Filter) (g : Group) :
    Prop where
  predicates : ∃ own related, g.predicates = own ++ related ∧
    List.Forall₂ (Renders t root site) f.conditions own ∧
    List.Forall₂ (RelatedBy t root site) f.links related
  groups : ∃ v v', GroupsOf t root site v f.filters g.groups v'

theorem RelatedOf.forall₂ {site : Site} {v v' : Variables} {ls : List Link} {ps : List Predicate}
    (h : RelatedOf t root site v ls ps v') : List.Forall₂ (RelatedBy t root site) ls ps := by
  match h with
  | .nil => exact .nil
  | .cons kind resolves reading body rest =>
    exact .cons (.mk kind resolves reading body) rest.forall₂

theorem GroupsOf.forall₂ {site : Site} {v v' : Variables} {fs : List Filter} {gs : List Group}
    (h : GroupsOf t root site v fs gs v') : List.Forall₂ (Grouped t root site) fs gs := by
  match h with
  | .nil => exact .nil
  | .cons own related nested rest =>
    exact .cons ⟨⟨_, _, rfl, own, related.forall₂⟩, _, _, nested⟩ rest.forall₂

theorem Grouped.condition {site : Site} {f : Filter} {g : Group} {c : Condition}
    (h : Grouped t root site f g) (hc : c ∈ f.conditions) :
    ∃ p ∈ g.predicates, Renders t root site c p := by
  obtain ⟨own, related, he, conditions, _⟩ := h.predicates
  obtain ⟨p, hp, hr⟩ := exists_of_forall₂_mem conditions hc
  exact ⟨p, he ▸ List.mem_append_left _ hp, hr⟩

theorem Grouped.link {site : Site} {f : Filter} {g : Group} {link : Link}
    (h : Grouped t root site f g) (hl : link ∈ f.links) :
    ∃ p ∈ g.predicates, RelatedBy t root site link p := by
  obtain ⟨own, related, he, _, links⟩ := h.predicates
  obtain ⟨p, hp, hr⟩ := exists_of_forall₂_mem links hl
  exact ⟨p, he ▸ List.mem_append_right _ hp, hr⟩

/-- A predicate comes from a condition of the filter or from a link in it. -/
theorem Grouped.member {site : Site} {f : Filter} {g : Group} {p : Predicate}
    (h : Grouped t root site f g) (hp : p ∈ g.predicates) :
    (∃ c ∈ f.conditions, Renders t root site c p) ∨
      ∃ link ∈ f.links, RelatedBy t root site link p := by
  obtain ⟨own, related, he, conditions, links⟩ := h.predicates
  rcases List.mem_append.mp (he ▸ hp) with hp | hp
  · exact Or.inl (exists_of_forall₂_mem conditions.flip hp)
  · exact Or.inr (exists_of_forall₂_mem links.flip hp)

/-- Every filter has its group. -/
theorem GroupsOf.group {site : Site} {v v' : Variables} {fs : List Filter} {gs : List Group}
    {f : Filter} (h : GroupsOf t root site v fs gs v') (hf : Below Filter.filters f fs) :
    ∃ g, Below Group.groups g gs ∧ Grouped t root site f g := by
  induction hf generalizing v v' gs with
  | here member =>
    obtain ⟨g, hg, grouped⟩ := exists_of_forall₂_mem h.forall₂ member
    exact ⟨g, .here hg, grouped⟩
  | deeper member inner ih =>
    obtain ⟨above, ha, grouped⟩ := exists_of_forall₂_mem h.forall₂ member
    obtain ⟨w, w', hn⟩ := grouped.groups
    obtain ⟨g, hg, grouped⟩ := ih hn
    exact ⟨g, .deeper ha hg, grouped⟩

/-- Every group has its filter. -/
theorem GroupsOf.filter {site : Site} {v v' : Variables} {fs : List Filter} {gs : List Group}
    {g : Group} (h : GroupsOf t root site v fs gs v') (hg : Below Group.groups g gs) :
    ∃ f, Below Filter.filters f fs ∧ Grouped t root site f g := by
  induction hg generalizing v v' fs with
  | here member =>
    obtain ⟨f, hf, grouped⟩ := exists_of_forall₂_mem h.forall₂.flip member
    exact ⟨f, .here hf, grouped⟩
  | deeper member inner ih =>
    obtain ⟨above, ha, grouped⟩ := exists_of_forall₂_mem h.forall₂.flip member
    obtain ⟨w, w', hn⟩ := grouped.groups
    obtain ⟨f, hf, grouped⟩ := ih hn
    exact ⟨f, .deeper ha hf, grouped⟩

/-- A predicate that stands anywhere in groups comes from one of their filters, or from a filter on
related rows, whose path is a variable alone. -/
theorem GroupsOf.origin {site : Site} {v v' : Variables} {fs : List Filter} {gs : List Group}
    {p : Predicate} (h : GroupsOf t root site v fs gs v') (ho : Occurs p gs) :
    ∃ place f g, Grouped t root place f g ∧ p ∈ g.predicates ∧
      (place = site ∧ Below Filter.filters f fs ∨ ∃ w : Variables, place.path = [w.lambda]) := by
  induction ho generalizing site v v' fs with
  | predicate group member =>
    obtain ⟨f, hf, grouped⟩ := h.filter (.here group)
    exact ⟨site, f, _, grouped, member, Or.inl ⟨rfl, hf⟩⟩
  | nested group inner ih =>
    obtain ⟨above, ha, around⟩ := exists_of_forall₂_mem h.forall₂.flip group
    obtain ⟨w, w', hn⟩ := around.groups
    obtain ⟨place, f, g, grouped, hp, ⟨rfl, hf⟩ | related⟩ := ih hn
    · exact ⟨place, f, g, grouped, hp, Or.inl ⟨rfl, .deeper ha hf⟩⟩
    · exact ⟨place, f, g, grouped, hp, Or.inr related⟩
  | body group member inner ih =>
    obtain ⟨_, _, around⟩ := exists_of_forall₂_mem h.forall₂.flip group
    rcases around.member member with ⟨c, _, renders⟩ | ⟨link, _, related⟩
    · obtain ⟨_, _, _, _, _, _, _, shape⟩ := renders.shape
      cases shape
    · cases related with
      | @mk _ _ _ _ _ _ w kind resolves reading body =>
        obtain ⟨place, f, g, grouped, hp, ⟨rfl, _⟩ | related⟩ := ih body
        · exact ⟨_, f, g, grouped, hp, Or.inr ⟨w, rfl⟩⟩
        · exact ⟨place, f, g, grouped, hp, Or.inr related⟩

inductive ExpandedBy (t : Snapshot) (root : Query.Entity) (parent : String) (link : Link) :
    Expand → Prop where
  | mk (kind : link.join.kind.quantifier? = none) (resolves : Resolves t parent link n)
      (filter : InlineOf t root link n v gs v₁)
      (nested : ExpandsOf t root (target n.route link).name v₁ (target n.route link).links
        innerExpands v₂) :
      ExpandedBy t root parent link ⟨n.property, columns, innerExpands, gs⟩

/-- The links with content are expanded, one by one. -/
theorem ExpandsOf.forall₂ {parent : String} {v v' : Variables} {ls : List Link} {es : List Expand}
    (h : ExpandsOf t root parent v ls es v') :
    List.Forall₂ (ExpandedBy t root parent) (ls.filter Link.hasContent) es := by
  induction h with
  | nil => exact .nil
  | skip kind bare rest ih => simpa [bare] using ih
  | expand kind content resolves unordered selected filter nested rest _ ih =>
    simpa [content] using And.intro (.mk kind resolves filter nested) ih

end Compile

end FetchOData
