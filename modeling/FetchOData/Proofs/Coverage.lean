import FetchOData.Source.Catalog
import FetchOData.Proofs.Origins

namespace FetchOData.Query

inductive Condition.StandsIn (c : Condition) : Filter → Prop where
  | own (member : c ∈ f.conditions) : Condition.StandsIn c f
  | nested (member : g ∈ f.filters) (inner : Condition.StandsIn c g) : Condition.StandsIn c f

inductive Link.Below (link : Link) : List Link → Prop where
  | here (member : link ∈ ls) : Link.Below link ls
  | deeper {above : Link} (member : above ∈ ls) (inner : Link.Below link above.links) :
      Link.Below link ls

theorem Condition.StandsIn.not_isEmpty {c : Condition} {f : Filter} (h : c.StandsIn f) :
    f.isEmpty = false := by
  cases h with
  | own member => simp [Filter.isEmpty, List.isEmpty_eq_false_iff_exists_mem.mpr ⟨_, member⟩]
  | nested member => simp [Filter.isEmpty, List.isEmpty_eq_false_iff_exists_mem.mpr ⟨_, member⟩]

theorem Condition.StandsIn.mem_nonEmpty {c : Condition} {f : Filter} {fs : List Filter}
    (h : c.StandsIn f) (hf : f ∈ fs) : f ∈ Filter.nonEmpty fs :=
  List.mem_filter.mpr ⟨hf, by simp [h.not_isEmpty]⟩

theorem Condition.StandsIn.exists_below {c : Condition} {f : Filter} {fs : List Filter}
    (h : c.StandsIn f) (hf : f ∈ fs) : ∃ g, Below Filter.filters g fs ∧ c ∈ g.conditions := by
  induction h generalizing fs with
  | own member => exact ⟨_, .here hf, member⟩
  | nested member inner ih =>
    obtain ⟨g, below, hc⟩ := ih member
    exact ⟨g, .deeper hf below, hc⟩

theorem Link.Below.links_ne_nil {link : Link} {ls : List Link} (h : link.Below ls) : ls ≠ [] := by
  cases h with
  | here member => exact List.ne_nil_of_mem member
  | deeper member => exact List.ne_nil_of_mem member

theorem Link.hasContent_of_mem_filters {link : Link} {f : Filter} (h : f ∈ link.filters) :
    link.hasContent = true := by
  simp [Link.hasContent, List.isEmpty_eq_false_iff_exists_mem.mpr ⟨f, h⟩]

theorem Link.hasContent_of_mem_links {link inner : Link} (h : inner ∈ link.links) :
    link.hasContent = true := by
  simp [Link.hasContent, List.isEmpty_eq_false_iff_exists_mem.mpr ⟨inner, h⟩]

end FetchOData.Query

namespace FetchOData.Compile
open Query OData

variable {t : Snapshot} {root : Query.Entity}

/-- Only a link with a single nested link crosses an intersect entity. -/
theorem Resolves.across_links {parent : String} {link : Link} {n : Navigation}
    (h : Resolves t parent link n) (hr : n.route = .across) : ∃ next, link.links = [next] := by
  obtain ⟨record, _, h⟩ := h
  cases leads_of_navigate h with
  | toMany => cases hr
  | toOne => cases hr
  | across _ _ _ crosses => exact ⟨_, crosses.single⟩

/-- A link that joins something with a filter or a link of its own has content itself. -/
theorem hasContent_of_target {route : Route} {link : Link}
    (h : (target route link).filters ≠ [] ∨ (target route link).links ≠ []) :
    link.hasContent = true := by
  unfold target at h
  split at h
  · rename_i next hl
    exact Link.hasContent_of_mem_links (by rw [hl]; exact List.mem_singleton_self next)
  · rcases h with h | h
    · obtain ⟨f, hf⟩ := List.exists_mem_of_ne_nil _ h
      exact Link.hasContent_of_mem_filters hf
    · obtain ⟨inner, hi⟩ := List.exists_mem_of_ne_nil _ h
      exact Link.hasContent_of_mem_links hi

theorem links_target_of_bare {route : Route} {link : Link} (h : link.hasContent = false) :
    (target route link).links = [] := by
  by_contra hne
  simp [hasContent_of_target (Or.inr hne)] at h

/-- Every condition of the filters is written somewhere in their groups. -/
theorem GroupsOf.occurs {site : Site} {v v' : Variables} {fs : List Filter} {gs : List Group}
    {f : Filter} {c : Condition} (h : GroupsOf t root site v fs gs v') (hf : f ∈ fs)
    (hc : c.StandsIn f) : ∃ p, Renders t root site c p ∧ Occurs p gs := by
  obtain ⟨f', below, member⟩ := hc.exists_below hf
  obtain ⟨g, hg, grouped⟩ := h.group below
  obtain ⟨p, hp, hr⟩ := grouped.condition member
  exact ⟨p, hr, .of_below hg hp⟩

/-- Each link with content is expanded, with the properties below it. -/
theorem ExpandsOf.member {parent : String} {v v' : Variables} {ls : List Link} {es : List Expand}
    {link : Link} (h : ExpandsOf t root parent v ls es v') (hl : link ∈ ls)
    (hc : link.hasContent = true) :
    link.join.kind.quantifier? = none ∧ ∃ n, Resolves t parent link n ∧ ∃ e ∈ es,
      (∃ w w', InlineOf t root link n w e.filter w') ∧
      ∃ w w', ExpandsOf t root (target n.route link).name w (target n.route link).links
        e.expand w' := by
  obtain ⟨e, he, expanded⟩ := exists_of_forall₂_mem h.forall₂ (List.mem_filter.mpr ⟨hl, hc⟩)
  cases expanded with
  | mk kind resolves filter nested =>
    exact ⟨kind, _, resolves, _, he, ⟨_, _, filter⟩, _, _, nested⟩

theorem Occurs.orPresent {p : Predicate} {gs : List Group} (h : Occurs p gs) (hne : p.text ≠ "")
    (path : Path) (key : String) : Occurs p (orPresent gs path key) := by
  obtain ⟨text, ht, _⟩ := h.infix_conjunction hne
  simpa [Compile.orPresent, ht] using h

structure Joined (t : Snapshot) (root : Query.Entity) (parent : String) (path : Path)
    (gs : List Group) (link : Link) (n : Navigation) (inside : Path) (own inner : List Group) :
    Prop where
  resolves : Resolves t parent link n
  filters : ∃ w w', GroupsOf t root ⟨(target n.route link).name, inside⟩ w
    (Filter.nonEmpty (target n.route link).filters) own w'
  links : ∃ w w', JoinsOf t root (target n.route link).name inside w (target n.route link).links
    inner w'
  own_occurs (p : Predicate) (written : p.text ≠ "") (h : Occurs p own) : Occurs p gs
  inner_occurs (p : Predicate) (h : Occurs p inner) : Occurs p gs
  toMany (many : n.isCollection = true) : ∃ range body, inside = [range] ∧
    Occurs (.related false path n.property .any range body) gs
  toOne (one : n.isCollection = false) : inside = path ++ [n.property] ∧
    ((Group.conjunction? own).isSome ∨ path = [])

theorem Joined.mono {parent : String} {path inside : Path} {gs hs own inner : List Group}
    {link : Link} {n : Navigation} (h : Joined t root parent path gs link n inside own inner)
    (kept : ∀ p, Occurs p gs → Occurs p hs) :
    Joined t root parent path hs link n inside own inner where
  resolves := h.resolves
  filters := h.filters
  links := h.links
  own_occurs p written ho := kept p (h.own_occurs p written ho)
  inner_occurs p ho := kept p (h.inner_occurs p ho)
  toMany many := by
    obtain ⟨range, body, hi, ho⟩ := h.toMany many
    exact ⟨range, body, hi, kept _ ho⟩
  toOne := h.toOne

/-- What each inner link asks for is asked. -/
theorem JoinsOf.member {parent : String} {path : Path} {v v' : Variables} {ls : List Link}
    {gs : List Group} {link : Link} (h : JoinsOf t root parent path v ls gs v') (hl : link ∈ ls)
    (hk : link.join.kind = .inner) :
    ∃ n inside own inner, Joined t root parent path gs link n inside own inner := by
  induction h with
  | nil => cases hl
  | other kind rest ih =>
    rcases List.mem_cons.mp hl with rfl | hl
    · exact absurd hk kind
    · exact ih hl
  | toMany kind resolves many record own nested rest _ ih =>
    rcases List.mem_cons.mp hl with rfl | hl
    · refine ⟨_, _, _, _, resolves, ⟨_, _, own⟩, ⟨_, _, nested⟩, ?_, ?_, ?_, ?_⟩
      · intro p hne ho
        exact .body List.mem_cons_self List.mem_cons_self
          ((Occurs.orPresent ho hne _ _).mono (List.subset_append_left _ _))
      · intro p ho
        exact .body List.mem_cons_self List.mem_cons_self
          (ho.mono (List.subset_append_right _ _))
      · intro _
        exact ⟨_, _, rfl, .predicate List.mem_cons_self List.mem_cons_self⟩
      · simp [many]
    · obtain ⟨n, inside, own, inner, joined⟩ := ih hl
      exact ⟨n, inside, own, inner, joined.mono fun p ho => ho.mono (List.subset_cons_self _ _)⟩
  | toOne kind resolves one record own reach nested rest _ ih =>
    rcases List.mem_cons.mp hl with rfl | hl
    · refine ⟨_, _, _, _, resolves, ⟨_, _, own⟩, ⟨_, _, nested⟩, ?_, ?_, ?_, ?_⟩
      · intro p hne ho
        rw [List.append_assoc]
        exact (Occurs.orPresent ho hne _ _).mono (List.subset_append_left _ _)
      · intro p ho
        exact (ho.mono (List.subset_append_right _ _)).mono (List.subset_append_left _ _)
      · simp [one]
      · intro _
        exact ⟨rfl, reach⟩
    · obtain ⟨n, inside, own, inner, joined⟩ := ih hl
      exact ⟨n, inside, own, inner,
        joined.mono fun p ho => ho.mono (List.subset_append_right _ _)⟩

/-- The walk through a query meets the link, which resolves to `n`. Whether every link above it is
an inner one is told by `straight`. -/
inductive Met (t : Snapshot) (link : Link) (n : Navigation) (straight : Bool) :
    String → Bool → List Link → Prop where
  | here (member : link ∈ ls) (resolves : Resolves t parent link n) :
      Met t link n straight parent straight ls
  | deeper (member : above ∈ ls) (resolves : Resolves t parent above m)
      (inner : Met t link n straight (target m.route above).name
        (start && decide (above.join.kind = .inner)) (target m.route above).links) :
      Met t link n straight parent start ls

/-- The filters whose conditions are about rows of the entity, and are written. -/
inductive Governs (t : Snapshot) (root : Query.Entity) : String → List Filter → Prop where
  | root : Governs t root root.name root.filters
  | link (met : Met t link n straight root.name true root.links)
      (applies : link.join.kind = .outer ∨ n.isCollection = true ∨ straight = true) :
      Governs t root (target n.route link).name (target n.route link).filters

theorem Met.links_ne_nil {link : Link} {n : Navigation} {straight start : Bool} {parent : String}
    {ls : List Link} (h : Met t link n straight parent start ls) : ls ≠ [] := by
  cases h with
  | here member => exact List.ne_nil_of_mem member
  | deeper member => exact List.ne_nil_of_mem member

/-- The filter of a link that carries its own stands among the expanded properties. -/
theorem ExpandsOf.occurs {link : Link} {n : Navigation} {straight start : Bool} {parent : String}
    {v v' : Variables} {ls : List Link} {es : List Expand} {f : Filter} {c : Condition}
    (h : ExpandsOf t root parent v ls es v') (met : Met t link n straight parent start ls)
    (carries : link.join.kind = .outer ∨ n.isCollection = true)
    (hf : f ∈ (target n.route link).filters) (hc : c.StandsIn f) :
    ∃ e ∈ es, ∃ e' : Expand, e'.Within e ∧
      ∃ p, Renders t root ⟨(target n.route link).name, []⟩ c p ∧ Occurs p e'.filter := by
  induction met generalizing v v' es with
  | here member resolves =>
    obtain ⟨_, m, hm, e, he, ⟨w, w', hi⟩, _⟩ :=
      h.member member (hasContent_of_target (Or.inl (List.ne_nil_of_mem hf)))
    cases resolves.unique hm
    rw [InlineOf, if_pos carries] at hi
    obtain ⟨p, hp, ho⟩ := hi.occurs (hc.mem_nonEmpty hf) hc
    exact ⟨e, he, e, .self, p, hp, ho⟩
  | deeper member resolves inner ih =>
    obtain ⟨_, m, hm, e, he, _, w, w', hn⟩ :=
      h.member member (hasContent_of_target (Or.inr inner.links_ne_nil))
    cases resolves.unique hm
    obtain ⟨e', he', e'', hw, hp⟩ := ih hn
    exact ⟨e, he, e'', .nested he' hw, hp⟩

/-- Nothing but inner links stands above a link that is met straight. -/
theorem Met.start_eq_true {link : Link} {n : Navigation} {start : Bool} {parent : String}
    {ls : List Link} (h : Met t link n true parent start ls) : start = true := by
  induction h with
  | here => rfl
  | deeper _ _ _ ih => exact (Bool.and_eq_true_iff.mp ih).1

/-- The filter of an inner link with only inner links above it is one of the joins' conditions. -/
theorem JoinsOf.occurs {link : Link} {n : Navigation} {start : Bool} {parent : String}
    {path : Path} {v v' : Variables} {ls : List Link} {gs : List Group} {f : Filter}
    {c : Condition} (h : JoinsOf t root parent path v ls gs v')
    (met : Met t link n true parent start ls) (hk : link.join.kind = .inner)
    (hf : f ∈ (target n.route link).filters) (hc : c.StandsIn f) :
    ∃ inside p, Renders t root ⟨(target n.route link).name, inside⟩ c p ∧ Occurs p gs := by
  induction met generalizing path v v' gs with
  | here member resolves =>
    obtain ⟨m, inside, own, inner, joined⟩ := h.member member hk
    cases resolves.unique joined.resolves
    obtain ⟨w, w', hg⟩ := joined.filters
    obtain ⟨p, hp, ho⟩ := hg.occurs (hc.mem_nonEmpty hf) hc
    exact ⟨inside, p, hp, joined.own_occurs p hp.text_ne ho⟩
  | deeper member resolves inner ih =>
    have hi := (Bool.and_eq_true_iff.mp inner.start_eq_true).2
    obtain ⟨m, _, own, _, joined⟩ := h.member member (of_decide_eq_true hi)
    cases resolves.unique joined.resolves
    obtain ⟨w, w', hj⟩ := joined.links
    obtain ⟨inside, p, hp, ho⟩ := ih hj
    exact ⟨inside, p, hp, joined.inner_occurs p ho⟩

/-- A link that is walked through on the way to a filter joins and is not a condition. -/
theorem ExpandsOf.kind_of_met {link : Link} {n : Navigation} {straight start : Bool}
    {parent : String} {v v' : Variables} {ls : List Link} {es : List Expand}
    (h : ExpandsOf t root parent v ls es v') (met : Met t link n straight parent start ls)
    (hf : (target n.route link).filters ≠ []) :
    link.join.kind = .inner ∨ link.join.kind = .outer := by
  induction met generalizing v v' es with
  | here member resolves =>
    obtain ⟨hk, _⟩ := h.member member (hasContent_of_target (Or.inl hf))
    cases hj : link.join.kind with
    | inner => exact Or.inl rfl
    | outer => exact Or.inr rfl
    | related => simp [hj, LinkKind.quantifier?] at hk
  | deeper member resolves inner ih =>
    obtain ⟨_, m, hm, e, _, _, w, w', hn⟩ :=
      h.member member (hasContent_of_target (Or.inr inner.links_ne_nil))
    cases resolves.unique hm
    exact ih hn

def Placed (t : Snapshot) (link : Link) (parent : String) (start : Bool) (ls : List Link) : Prop :=
  (∃ l n straight, Met t l n straight parent start ls ∧ target n.route l = link) ∨
    ∃ n straight, Met t link n straight parent start ls ∧ n.route = .across

/-- The links pass: each of them joins, nothing that it joins is ordered, and the links of what it
joins pass as well. A link without content is not followed. -/
inductive Passes (t : Snapshot) : String → List Link → Prop where
  | nil : Passes t parent []
  | bare (kind : link.join.kind.quantifier? = none) (bare : link.hasContent = false)
      (rest : Passes t parent links) : Passes t parent (link :: links)
  | joined (kind : link.join.kind.quantifier? = none) (resolves : Resolves t parent link n)
      (unordered : link.selection.orders ++ (target n.route link).selection.orders = [])
      (nested : Passes t (target n.route link).name (target n.route link).links)
      (rest : Passes t parent links) : Passes t parent (link :: links)

theorem ExpandsOf.passes {parent : String} {v v' : Variables} {ls : List Link} {es : List Expand}
    (h : ExpandsOf t root parent v ls es v') : Passes t parent ls := by
  induction h with
  | nil => exact .nil
  | skip kind bare rest ih => exact .bare kind bare ih
  | expand kind content resolves unordered selected filter nested rest inner ih =>
    exact .joined kind resolves unordered inner ih

theorem Passes.member {link : Link} {parent : String} {ls : List Link} (h : Passes t parent ls)
    (hl : link ∈ ls) : link.join.kind.quantifier? = none ∧
      (link.hasContent = false ∨ ∃ n, Resolves t parent link n ∧
        link.selection.orders ++ (target n.route link).selection.orders = [] ∧
        Passes t (target n.route link).name (target n.route link).links) := by
  induction h with
  | nil => cases hl
  | bare kind bare rest ih =>
    rcases List.mem_cons.mp hl with rfl | hl
    · exact ⟨kind, Or.inl bare⟩
    · exact ih hl
  | joined kind resolves unordered nested rest _ ih =>
    rcases List.mem_cons.mp hl with rfl | hl
    · exact ⟨kind, Or.inr ⟨_, resolves, unordered, nested⟩⟩
    · exact ih hl

inductive Walk (t : Snapshot) : String → List Link → String → List Link → Prop where
  | refl : Walk t parent ls parent ls
  | step (member : above ∈ ls) (resolves : Resolves t parent above m)
      (rest : Walk t (target m.route above).name (target m.route above).links place ms) :
      Walk t parent ls place ms

/-- The link is the one inside an intersect entity, which is crossed from here. -/
def Hop (t : Snapshot) (link : Link) (place : String) (ms : List Link) : Prop :=
  ∃ above ∈ ms, ∃ n, Resolves t place above n ∧ n.route = .across ∧ above.links = [link]

theorem Passes.walk {parent place : String} {ls ms : List Link} (h : Passes t parent ls)
    (walk : Walk t parent ls place ms) : Passes t place ms := by
  induction walk with
  | refl => exact h
  | step member resolves rest ih =>
    apply ih
    obtain ⟨_, bare | ⟨n, hn, _, nested⟩⟩ := h.member member
    · rw [links_target_of_bare bare]
      exact .nil
    · cases resolves.unique hn
      exact nested

def Visited (t : Snapshot) (link : Link) (parent : String) (ls : List Link) : Prop :=
  ∃ place ms, Walk t parent ls place ms ∧ (link ∈ ms ∨ Hop t link place ms)

theorem Visited.deeper {link above : Link} {m : Navigation} {parent : String} {ls : List Link}
    (member : above ∈ ls) (resolves : Resolves t parent above m)
    (h : Visited t link (target m.route above).name (target m.route above).links) :
    Visited t link parent ls := by
  obtain ⟨place, ms, walk, stands⟩ := h
  exact ⟨place, ms, .step member resolves walk, stands⟩

/-- Every link is visited. The second half is what the first needs where an intersect entity is
crossed: the walk then goes on below the one link inside it. -/
theorem Passes.visited {link : Link} {ls : List Link} (hb : link.Below ls) :
    (∀ parent, Passes t parent ls → Visited t link parent ls) ∧
      ∀ next, ls = [next] → Passes t next.name next.links →
        link = next ∨ Visited t link next.name next.links := by
  induction hb with
  | here member =>
    constructor
    · intro parent h
      exact ⟨parent, _, .refl, Or.inl member⟩
    · intro next hl _
      rw [hl] at member
      exact Or.inl (List.mem_singleton.mp member)
  | @deeper ls above member inner ih =>
    constructor
    · intro parent h
      obtain ⟨i, hi⟩ := List.exists_mem_of_ne_nil _ inner.links_ne_nil
      obtain ⟨_, bare | ⟨m, hm, _, hn⟩⟩ := h.member member
      · simp [Link.hasContent_of_mem_links hi] at bare
      · by_cases hr : m.route = .across
        -- The walk skips the one link inside, which may be the link in question.
        · obtain ⟨next, hl⟩ := hm.across_links hr
          have ht : target m.route above = next := by simp [target, hr, hl]
          rw [ht] at hn
          rcases ih.2 next hl hn with rfl | hv
          · exact ⟨parent, ls, .refl, Or.inr ⟨above, member, m, hm, hr, hl⟩⟩
          · exact Visited.deeper member hm (ht ▸ hv)
        · rw [target_eq_self hr] at hn
          exact Visited.deeper member hm ((target_eq_self hr above).symm ▸ ih.1 _ hn)
    · intro next hl h
      rw [hl] at member
      cases List.mem_singleton.mp member
      exact Or.inr (ih.1 _ h)

theorem Walk.met {link : Link} {n : Navigation} {parent place : String} {ls ms : List Link}
    (h : Walk t parent ls place ms) (member : link ∈ ms) (resolves : Resolves t place link n)
    (start : Bool) : ∃ straight, Met t link n straight parent start ls := by
  induction h generalizing start with
  | refl => exact ⟨start, .here member resolves⟩
  | @step _ above _ _ _ _ aboveMember aboveResolves rest ih =>
    obtain ⟨straight, met⟩ := ih member resolves (start && decide (above.join.kind = .inner))
    exact ⟨straight, .deeper aboveMember aboveResolves met⟩

/-- Every link with a filter has its place in the walk. -/
theorem ExpandsOf.placed {link : Link} {parent : String} {v v' : Variables} {ls : List Link}
    {es : List Expand} (h : ExpandsOf t root parent v ls es v') (hb : link.Below ls)
    (hf : link.filters ≠ []) (start : Bool) : Placed t link parent start ls := by
  obtain ⟨place, ms, walk, member | ⟨above, member, n, hn, hr, hl⟩⟩ :=
    (Passes.visited hb).1 _ h.passes
  · obtain ⟨f, hm⟩ := List.exists_mem_of_ne_nil _ hf
    obtain ⟨_, bare | ⟨n, hn, _⟩⟩ := (h.passes.walk walk).member member
    · simp [Link.hasContent_of_mem_filters hm] at bare
    · obtain ⟨straight, met⟩ := walk.met member hn start
      by_cases hr : n.route = .across
      · exact Or.inr ⟨n, straight, met, hr⟩
      · exact Or.inl ⟨link, n, straight, met, target_eq_self hr link⟩
  · obtain ⟨straight, met⟩ := walk.met member hn start
    exact Or.inl ⟨above, n, straight, met, by simp [target, hr, hl]⟩

theorem entity_of_admissible {fetch : Fetch} (h : admissible fetch = .ok root) :
    fetch.entity = some root := by
  simp only [admissible, bind, Except.bind, pure, Except.pure, throw, throwThe,
    MonadExceptOf.throw] at h
  grind

theorem RequestOf.entity_eq {fetch : Fetch} {r : Request} (h : RequestOf t fetch root r) :
    fetch.entity = some root :=
  entity_of_admissible h.admitted

theorem RequestOf.isAggregate_eq {fetch : Fetch} {r : Request} (h : RequestOf t fetch root r)
    (rows : fetch.aggregate = false) : r.isAggregate = false := by
  obtain ⟨record, collection, o, _, _, _, _, _, _, _, _, ho, _, _, _, rfl⟩ := h.parts
  have hg := ho {}
  simp only [outline, rows, Bool.false_eq_true, if_false] at hg
  obtain ⟨selected, _, _, hg⟩ := gives_bind.mp hg
  obtain ⟨orderBy, _, _, hg⟩ := gives_bind.mp hg
  obtain ⟨rfl, _⟩ := gives_pure.mp hg
  rfl

/-- The condition, as one about rows of the entity, is part of the request's filter or of the filter
of a property that it expands. -/
def Written (t : Snapshot) (root : Query.Entity) (r : Request) (entity : String) (c : Condition) :
    Prop :=
  ∃ path p, ∃ e : Expand, ∃ text, Renders t root ⟨entity, path⟩ c p ∧ e.Within r.target ∧
    Group.conjunction? e.filter = some text ∧ p.text.toList <:+: text.toList

theorem Written.of_root {r : Request} {entity : String} {c : Condition} {path : Path}
    {p : Predicate} (hp : Renders t root ⟨entity, path⟩ c p) (ho : Occurs p r.target.filter) :
    Written t root r entity c := by
  obtain ⟨text, ht, hi⟩ := ho.infix_conjunction hp.text_ne
  exact ⟨path, p, _, text, hp, .self, ht, hi⟩

theorem Written.of_expand {r : Request} {entity : String} {c : Condition} {path : Path}
    {p : Predicate} {e e' : Expand} (hp : Renders t root ⟨entity, path⟩ c p)
    (he : e ∈ r.target.expand) (hw : e'.Within e) (ho : Occurs p e'.filter) :
    Written t root r entity c := by
  obtain ⟨text, ht, hi⟩ := ho.infix_conjunction hp.text_ne
  exact ⟨path, p, e', text, hp, .nested he hw, ht, hi⟩

theorem RequestOf.written {fetch : Fetch} {r : Request} (h : RequestOf t fetch root r)
    {entity : String} {filters : List Filter} {f : Filter} {c : Condition}
    (governs : Governs t root entity filters) (hf : f ∈ filters) (hc : c.StandsIn f) :
    Written t root r entity c := by
  obtain ⟨_, _, o, filter, v₁, expand, v₂, joins, v₃, _, _, _, own, expanded, joined, rfl⟩ :=
    h.parts
  cases governs with
  | root =>
    obtain ⟨p, hp, ho⟩ := own.occurs (hc.mem_nonEmpty hf) hc
    exact Written.of_root hp (ho.mono (List.subset_append_left _ _))
  | @link link n straight met applies =>
    by_cases carries : link.join.kind = .outer ∨ n.isCollection = true
    · obtain ⟨e, he, e', hw, p, hp, ho⟩ := expanded.occurs met carries hf hc
      exact Written.of_expand hp he hw ho
    · -- Nothing is expanded with the filter, so it has to be among the conditions of the joins.
      obtain ⟨outer, one⟩ := not_or.mp carries
      have hs : straight = true := by simpa [outer, one] using applies
      have hk := (expanded.kind_of_met met (List.ne_nil_of_mem hf)).resolve_right outer
      obtain ⟨path, p, hp, ho⟩ := joined.occurs (hs ▸ met) hk hf hc
      exact Written.of_root hp (ho.mono (List.subset_append_right _ _))

/-- The filters of every link are written, unless the link is an intersect entity that is crossed
or an inner link to one row that has an outer link above it. -/
theorem RequestOf.placed {fetch : Fetch} {r : Request} (h : RequestOf t fetch root r) {link : Link}
    {f : Filter} (hl : link.Below root.links) (hf : f ∈ link.filters) :
    Governs t root link.name link.filters ∨
      ∃ n straight, Met t link n straight root.name true root.links ∧
        (n.route = .across ∨
          link.join.kind = .inner ∧ n.route = .toOne ∧ straight = false) := by
  obtain ⟨_, _, _, _, v₁, expand, v₂, _, _, _, _, _, _, expanded, _⟩ := h.parts
  rcases expanded.placed hl (List.ne_nil_of_mem hf) true with
    ⟨l, n, straight, met, rfl⟩ | ⟨n, straight, met, hr⟩
  · by_cases applies : l.join.kind = .outer ∨ n.isCollection = true ∨ straight = true
    · exact Or.inl (.link met applies)
    · simp only [not_or, Bool.not_eq_true] at applies
      obtain ⟨outer, one, hs⟩ := applies
      have hr := Navigation.route_eq_toOne one
      have hk := (expanded.kind_of_met met (List.ne_nil_of_mem hf)).resolve_right outer
      rw [target_eq_of_toOne one]
      exact Or.inr ⟨n, straight, met, Or.inr ⟨hk, hr, hs⟩⟩
  · exact Or.inr ⟨n, straight, met, Or.inl hr⟩

end FetchOData.Compile

namespace FetchOData.WebQuery
open Query OData Compile

/-- A conversion to rows puts into the URL the conditions of the root's filters and those of its
links' filters, each about an attribute that its entity has. The filters of links that need not be
written are those of intersect entities, which are crossed, and of inner links to one row below an
outer link. -/
theorem conditions_in_url {source : Source σ} {t : Snapshot} {s s' : σ} {base : String}
    {fetch : Fetch} {root : Query.Entity} {q : WebQuery} (stable : source.Shows t s)
    (rows : fetch.aggregate = false) (start : fetch.entity = some root)
    (converts : ofFetch source base fetch s = (.ok q, s')) :
    ∃ r, (request fetch).answer t = .ok r ∧ q.url = r.url base ∧
      (∀ entity filters f c, Governs t root entity filters → f ∈ filters → c.StandsIn f →
        c.entityName = none →
          (∃ record attr, t.entity entity = .ok record ∧
            record.findAttribute? c.column = some attr) ∧
          ∃ path p, ∃ e : Expand, ∃ text, Renders t root ⟨entity, path⟩ c p ∧
            e.Within r.target ∧ Group.conjunction? e.filter = some text ∧
            p.text.toList <:+: text.toList ∧ ("$filter=" ++ text).toList <:+: q.url.toList) ∧
      ∀ link f, link.Below root.links → f ∈ link.filters →
        Governs t root link.name link.filters ∨
          ∃ n straight, Met t link n straight root.name true root.links ∧
            (n.route = .across ∨
              link.join.kind = .inner ∧ n.route = .toOne ∧ straight = false) := by
  obtain ⟨r, hr, rfl⟩ := request_of_converts stable converts
  obtain ⟨root', h⟩ := requestOf_of_answer hr
  cases start.symm.trans h.entity_eq
  refine ⟨r, hr, rfl, ?_, fun link f hl hf => h.placed hl hf⟩
  intro entity filters f c governs hf hc own
  obtain ⟨path, p, e, text, hp, he, ht, hi⟩ := h.written governs hf hc
  obtain ⟨_, record, attr, hrecord, hattr, _⟩ := hp.own_shape own
  exact ⟨⟨record, attr, hrecord, hattr⟩, path, p, e, text, hp, he, ht, hi,
    Request.filter_in_url base (h.isAggregate_eq rows) he ht⟩

def unnamedAccounts : Link :=
  { join := { entity := "account", fromColumn := "primarycontactid", toColumn := "contactid" },
    filters := [{ filters := [{ conditions := [{ column := "name", operator := .isNull }] }] }] }

def accountsOfContacts : Query.Entity :=
  { name := "account",
    links := [{
      join := { entity := "contact", fromColumn := "parentcustomerid", toColumn := "accountid",
                kind := .outer },
      links := [unnamedAccounts] }] }

/-- A condition in a nested filter of an inner link below an outer one is in the URL. -/
theorem conditions_in_url_accountsOfContacts :
    ∃ q s', ofFetch Catalog.source "org" { entity := some accountsOfContacts } Catalog.sample =
        (.ok q, s') ∧
      ∃ path p text, Renders Catalog.sample.snapshot accountsOfContacts ⟨"account", path⟩
          { column := "name", operator := .isNull } p ∧
        p.text.toList <:+: text.toList ∧ ("$filter=" ++ text).toList <:+: q.url.toList := by
  have converts : ofFetch Catalog.source "org" { entity := some accountsOfContacts }
      Catalog.sample =
        (.ok ⟨"org/accounts?$expand=contact_customer_accounts(" ++
          "$expand=account_primarycontact($filter=((name eq null))))", []⟩, _) :=
    Prod.ext (by decide +kernel) rfl
  obtain ⟨r, _, _, written, _⟩ := conditions_in_url (Catalog.shows _) rfl rfl converts
  have met : Met Catalog.sample.snapshot unnamedAccounts ⟨"account_primarycontact", .toMany⟩ false
      "account" true accountsOfContacts.links :=
    .deeper (m := ⟨"contact_customer_accounts", .toMany⟩) List.mem_cons_self (by decide +kernel)
      (.here List.mem_cons_self (by decide +kernel))
  obtain ⟨_, path, p, e, text, hp, _, _, hi, hu⟩ := written _ _ _ _
    (.link met (Or.inr (Or.inl rfl))) List.mem_cons_self
    (.nested List.mem_cons_self (.own List.mem_cons_self)) rfl
  exact ⟨_, _, converts, path, p, text, hp, hi, hu⟩

def filteredIntersect : Link :=
  { join := { entity := "accountleads", fromColumn := "accountid", toColumn := "accountid" },
    filters := [{ conditions := [{ column := "nope", operator := .isNull }] }],
    links := [{
      join := { entity := "lead", fromColumn := "leadid", toColumn := "leadid" },
      selection := { columns := [{ name := "subject" }] } }] }

/-- A condition on an intersect entity is left out, and that the entity has no such attribute goes
unnoticed. -/
theorem intersect_condition_left_out :
    (Catalog.sample.entity "accountleads").map (·.findAttribute? "nope") = .ok none ∧
      (ofFetch Catalog.source "org"
        { entity := some { name := "account", links := [filteredIntersect] } } Catalog.sample).1 =
      .ok ⟨"org/accounts?$expand=accountleads_association($select=subject)" ++
        "&$filter=(accountleads_association/any(o1:(o1/leadid ne null)))", []⟩ := by
  decide +kernel

end FetchOData.WebQuery
