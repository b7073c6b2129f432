import FetchOData.Proofs.Coverage

namespace FetchOData

namespace OData

def Predicate.isRelated : Predicate → Bool
  | .related .. => true
  | _ => false

theorem occurs_append {p : Predicate} {gs hs : List Group} (h : Occurs p (gs ++ hs)) :
    Occurs p gs ∨ Occurs p hs := by
  cases h with
  | predicate group member =>
    rcases List.mem_append.mp group with hg | hg
    · exact Or.inl (.predicate hg member)
    · exact Or.inr (.predicate hg member)
  | nested group inner =>
    rcases List.mem_append.mp group with hg | hg
    · exact Or.inl (.nested hg inner)
    · exact Or.inr (.nested hg inner)
  | body group member inner =>
    rcases List.mem_append.mp group with hg | hg
    · exact Or.inl (.body hg member inner)
    · exact Or.inr (.body hg member inner)

theorem occurs_cons {p : Predicate} {g : Group} {gs : List Group} (h : Occurs p (g :: gs)) :
    Occurs p [g] ∨ Occurs p gs := by
  rw [← List.singleton_append] at h
  exact occurs_append h

/-- What stands in a group of one predicate is that predicate or stands in its body. -/
theorem occurs_single {p q : Predicate} (h : Occurs p [.single q]) :
    p = q ∨ ∃ negated path collection quantifier range body,
      q = .related negated path collection quantifier range body ∧ Occurs p body := by
  cases h with
  | predicate group member =>
    cases List.mem_singleton.mp group
    exact Or.inl (List.mem_singleton.mp member)
  | nested group inner =>
    cases List.mem_singleton.mp group
    cases inner <;> contradiction
  | body group member inner =>
    cases List.mem_singleton.mp group
    exact Or.inr ⟨_, _, _, _, _, _, (List.mem_singleton.mp member).symm, inner⟩

/-- Groups that write something have a predicate in them. -/
theorem exists_predicate_of_texts {gs : List Group} (h : Group.texts gs ≠ []) :
    ∃ g, Below Group.groups g gs ∧ g.predicates ≠ [] := by
  match gs with
  | [] => exact absurd rfl h
  | ⟨connective, predicates, groups⟩ :: gs =>
    by_cases bare : predicates = []
    · subst bare
      by_cases empty : Group.texts groups = []
      · have rest : Group.texts gs ≠ [] := by
          simpa [Group.texts, Group.text?, Predicate.texts, parenthesized?, empty] using h
        obtain ⟨g, hg, hp⟩ := exists_predicate_of_texts rest
        exact ⟨g, hg.mono (List.subset_cons_self _ _), hp⟩
      · obtain ⟨g, hg, hp⟩ := exists_predicate_of_texts empty
        exact ⟨g, .deeper List.mem_cons_self hg, hp⟩
    · exact ⟨_, .here List.mem_cons_self, bare⟩

end OData

namespace Query

def AsksRelated (fs : List Filter) : Prop :=
  ∃ f, Below Filter.filters f fs ∧ f.links ≠ []

/-- A filter with something to write is below filters that are not left out. -/
theorem Filter.below_nonEmpty {f : Filter} {fs : List Filter} (h : Below Filter.filters f fs)
    (hf : f.conditions ≠ [] ∨ f.links ≠ []) : Below Filter.filters f (Filter.nonEmpty fs) := by
  cases h with
  | here member =>
    refine .here (List.mem_filter.mpr ⟨member, ?_⟩)
    rcases hf with hf | hf <;> simp [Filter.isEmpty, hf]
  | @deeper _ above member inner =>
    have : above.filters ≠ [] := by
      cases inner with
      | here member => exact List.ne_nil_of_mem member
      | deeper member => exact List.ne_nil_of_mem member
    exact .deeper (List.mem_filter.mpr ⟨member, by simp [Filter.isEmpty, this]⟩) inner

end Query

namespace Compile
open Query OData

variable {t : Snapshot} {root : Query.Entity}

inductive Segment (t : Snapshot) : String → Prop where
  | navigation (record : t.entity name = .ok e) (member : s ∈ e.navigations name) : Segment t s
  | lambda (v : Variables) : Segment t v.lambda
  | join (v : Variables) : Segment t v.join

theorem Resolves.segment {parent : String} {link : Link} {n : Navigation}
    (h : Resolves t parent link n) : Segment t n.property := by
  obtain ⟨e, he, member⟩ := h.navigation
  exact .navigation he member

/-- The predicate stands behind a path of one segment at most, unless it is about related rows and
something else is the case. -/
def Reaches (t : Snapshot) (far : Prop) (p : Predicate) : Prop :=
  ∃ path, p.path? = some path ∧ (∀ s ∈ path, Segment t s) ∧
    (path.length ≤ 1 ∨ p.isRelated = true ∧ far)

theorem Reaches.imp {far far' : Prop} {p : Predicate} (h : Reaches t far p) (hf : far → far') :
    Reaches t far' p := by
  obtain ⟨path, hp, segments, short | ⟨related, hfar⟩⟩ := h
  · exact ⟨path, hp, segments, Or.inl short⟩
  · exact ⟨path, hp, segments, Or.inr ⟨related, hf hfar⟩⟩

theorem Shape.path?_eq {attr : Schema.Attribute} {path : Path} {c : Condition} {p : Predicate}
    (h : Shape attr path c p) : p.path? = some path := by
  cases h <;> rfl

theorem Renders.reaches {site : Site} {c : Condition} {p : Predicate}
    (h : Renders t root site c p) (segments : ∀ s ∈ site.path, Segment t s) (far : Prop) :
    Reaches t far p := by
  obtain ⟨place, e, attr, hs, shallow, he, ha, shape⟩ := h.shape
  refine ⟨place.path, shape.path?_eq, ?_, Or.inl (length_le_of_tooDeep_eq_false shallow)⟩
  cases hn : c.entityName with
  | none =>
    rw [hn] at hs
    obtain ⟨rfl, _⟩ := gives_pure.mp hs
    exact segments
  | some name =>
    rw [hn] at hs
    obtain ⟨goal, trail, _⟩ := trail_of_subject hs
    exact trail.forall_mem fun _ _ _ resolves => resolves.segment

theorem RelatedBy.path?_eq {site : Site} {link : Link} {p : Predicate}
    (h : RelatedBy t root site link p) : p.path? = some site.path ∧ p.isRelated = true := by
  cases h
  exact ⟨rfl, rfl⟩

/-- Filters reach further than one segment only by links in them, at a site further away. -/
theorem GroupsOf.reaches {site : Site} {v v' : Variables} {fs : List Filter} {gs : List Group}
    {p : Predicate} (h : GroupsOf t root site v fs gs v') (segments : ∀ s ∈ site.path, Segment t s)
    (ho : Occurs p gs) : Reaches t (2 ≤ site.path.length ∧ AsksRelated fs) p := by
  obtain ⟨place, f, g, grouped, hp, origin⟩ := h.origin ho
  have hplace : ∀ s ∈ place.path, Segment t s := by
    rcases origin with ⟨rfl, _⟩ | ⟨w, hw⟩
    · exact segments
    · rw [hw]
      exact List.forall_mem_singleton.mpr (.lambda w)
  rcases grouped.member hp with ⟨c, _, renders⟩ | ⟨link, hl, related⟩
  · exact renders.reaches hplace _
  · obtain ⟨path, isRelated⟩ := related.path?_eq
    refine ⟨place.path, path, hplace, ?_⟩
    rcases origin with ⟨rfl, hf⟩ | ⟨w, hw⟩
    · by_cases short : place.path.length ≤ 1
      · exact Or.inl short
      · exact Or.inr ⟨isRelated, by omega, f, hf, List.ne_nil_of_mem hl⟩
    · exact Or.inl (by simp [hw])

def JoinsMany (t : Snapshot) (parent : String) (ls : List Link) : Prop :=
  ∃ link ∈ ls, link.join.kind = .inner ∧ ∃ n, Resolves t parent link n ∧ n.isCollection = true

/-- The link is the last of so many inner links: the first is one of those given, and each other one
is joined from what the one before it joins. -/
inductive InnerChain (t : Snapshot) (link : Link) (n : Navigation) :
    String → List Link → Nat → Prop where
  | here (member : link ∈ ls) (kind : link.join.kind = .inner)
      (resolves : Resolves t parent link n) : InnerChain t link n parent ls 1
  | deeper (member : above ∈ ls) (kind : above.join.kind = .inner)
      (resolves : Resolves t parent above m)
      (inner : InnerChain t link n (target m.route above).name (target m.route above).links depth) :
      InnerChain t link n parent ls (depth + 1)

theorem InnerChain.mono {link : Link} {n : Navigation} {parent : String} {ls ms : List Link}
    {depth : Nat} (h : InnerChain t link n parent ls depth) (hsub : ls ⊆ ms) :
    InnerChain t link n parent ms depth := by
  cases h with
  | here member kind resolves => exact .here (hsub member) kind resolves
  | deeper member kind resolves inner => exact .deeper (hsub member) kind resolves inner

theorem InnerChain.pos {link : Link} {n : Navigation} {parent : String} {ls : List Link}
    {depth : Nat} (h : InnerChain t link n parent ls depth) : 0 < depth := by
  cases h <;> omega

/-- From rows that a path of the given length leads to, a chain of inner links ends in one row, with
more than one segment in front of it, and the link there asks about related rows. -/
def Overreaches (t : Snapshot) (parent : String) (length : Nat) (ls : List Link) : Prop :=
  ∃ link n depth, InnerChain t link n parent ls depth ∧ n.isCollection = false ∧
    2 ≤ length + depth ∧ (AsksRelated link.filters ∨ JoinsMany t link.name link.links)

theorem Overreaches.deeper {parent : String} {length length' : Nat} {ls : List Link} {above : Link}
    {m : Navigation} (member : above ∈ ls) (kind : above.join.kind = .inner)
    (resolves : Resolves t parent above m) (near : length' ≤ length + 1)
    (h : Overreaches t (target m.route above).name length' (target m.route above).links) :
    Overreaches t parent length ls := by
  obtain ⟨link, n, depth, chain, one, far, asks⟩ := h
  exact ⟨link, n, depth + 1, .deeper member kind resolves chain, one, by omega, asks⟩

theorem occurs_orPresent {gs : List Group} {path : Path} {key : String} {p : Predicate}
    (h : Occurs p (orPresent gs path key)) :
    Occurs p gs ∨ (Group.conjunction? gs).isSome = false ∧ p = .isNull ⟨path, key, false⟩ true := by
  unfold orPresent at h
  split at h
  · exact Or.inl h
  · rename_i hn
    rcases occurs_single h with rfl | ⟨_, _, _, _, _, _, he, _⟩
    · exact Or.inr ⟨by simpa using hn, rfl⟩
    · cases he

def Far (t : Snapshot) (parent : String) (path : Path) (ls : List Link) : Prop :=
  2 ≤ path.length ∧ JoinsMany t parent ls ∨ Overreaches t parent path.length ls

theorem Far.cons {parent : String} {path : Path} {ls : List Link} (h : Far t parent path ls)
    (link : Link) : Far t parent path (link :: ls) := by
  rcases h with ⟨far, l, hl, many⟩ | ⟨l, n, depth, chain, far⟩
  · exact Or.inl ⟨far, l, List.mem_cons_of_mem _ hl, many⟩
  · exact Or.inr ⟨l, n, depth, chain.mono (List.subset_cons_self _ _), far⟩

theorem JoinsOf.reaches {parent : String} {path : Path} {v v' : Variables} {ls : List Link}
    {gs : List Group} {p : Predicate} (h : JoinsOf t root parent path v ls gs v')
    (segments : ∀ s ∈ path, Segment t s) (ho : Occurs p gs) :
    Reaches t (Far t parent path ls) p := by
  induction h with
  | nil => cases ho <;> contradiction
  | other kind _ ih => exact (ih segments ho).imp fun far => far.cons _
  | @toMany parent link n e gs v₁ innerGroups v₂ path links others v₃ v kind resolves many record
      own nested _ ihNested ihRest =>
    have inside : ∀ s ∈ [v.join], Segment t s := List.forall_mem_singleton.mpr (.join v)
    rcases occurs_cons ho with ho | ho
    · rcases occurs_single ho with rfl | ⟨_, _, _, _, _, _, he, ho⟩
      · refine ⟨path, rfl, segments, ?_⟩
        by_cases short : path.length ≤ 1
        · exact Or.inl short
        · exact Or.inr ⟨rfl, Or.inl ⟨by omega, link, List.mem_cons_self, kind, n, resolves, many⟩⟩
      · cases he
        rcases occurs_append ho with ho | ho
        · rcases occurs_orPresent ho with ho | ⟨_, rfl⟩
          · refine (own.reaches inside ho).imp ?_
            rintro ⟨far, _⟩
            simp at far
          · exact ⟨[v.join], rfl, inside, Or.inl (Nat.le_refl 1)⟩
        · refine (ihNested inside ho).imp ?_
          rintro (⟨far, _⟩ | far)
          · simp at far
          · exact Or.inr (far.deeper List.mem_cons_self kind resolves (by simp))
    · exact (ihRest segments ho).imp fun far => far.cons _
  | @toOne parent link n e path v gs v₁ innerGroups v₂ links others v₃ kind resolves one record own
      reach nested _ ihNested ihRest =>
    have inside : ∀ s ∈ path ++ [n.property], Segment t s :=
      List.forall_mem_append.mpr ⟨segments, List.forall_mem_singleton.mpr resolves.segment⟩
    have same := target_eq_of_toOne one link
    have asked (far : 2 ≤ (path ++ [n.property]).length)
        (asks : AsksRelated link.filters ∨ JoinsMany t link.name link.links) :
        Overreaches t parent path.length (link :: links) :=
      ⟨link, n, 1, .here List.mem_cons_self kind resolves, one, by simpa using far, asks⟩
    rcases occurs_append ho with ho | ho
    · rcases occurs_append ho with ho | ho
      · rcases occurs_orPresent ho with ho | ⟨none, rfl⟩
        · refine (own.reaches inside ho).imp ?_
          rintro ⟨far, f, hf, hl⟩
          rw [same] at hf
          exact Or.inr (asked far (Or.inl ⟨f, hf.mono List.filter_sublist.subset, hl⟩))
        · -- Only a link of the root may be asked for by its presence alone.
          have bare : path = [] := by simpa [none] using reach
          subst bare
          exact ⟨[n.property], rfl, inside, Or.inl (Nat.le_refl 1)⟩
      · refine (ihNested inside ho).imp ?_
        rintro (⟨far, many⟩ | far)
        · rw [same] at many
          exact Or.inr (asked far (Or.inr many))
        · exact Or.inr (far.deeper List.mem_cons_self kind resolves (by simp))
    · exact (ihRest segments ho).imp fun far => far.cons _

/-- The last link of a chain brings what it asks for to the conditions of joins. -/
theorem JoinsOf.chained {parent : String} {path : Path} {v v' : Variables} {ls : List Link}
    {gs : List Group} {link : Link} {n : Navigation} {depth : Nat}
    (h : JoinsOf t root parent path v ls gs v') (chain : InnerChain t link n parent ls depth)
    (far : 2 ≤ path.length + depth) :
    ∃ parent' path' inside own inner, Joined t root parent' path' gs link n inside own inner ∧
      path' ≠ [] := by
  induction chain generalizing path v v' gs with
  | here member kind resolves =>
    obtain ⟨m, inside, own, inner, joined⟩ := h.member member kind
    cases resolves.unique joined.resolves
    refine ⟨_, path, inside, own, inner, joined, ?_⟩
    rintro rfl
    simp at far
  | @deeper above _ _ m depth member kind resolves chain ih =>
    obtain ⟨m', inside, own, inner, joined⟩ := h.member member kind
    cases resolves.unique joined.resolves
    obtain ⟨w, w', nested⟩ := joined.links
    have near : 2 ≤ inside.length + depth := by
      have := chain.pos
      cases many : m.isCollection with
      | true =>
        obtain ⟨range, body, rfl, _⟩ := joined.toMany many
        simp only [List.length_singleton]
        omega
      | false =>
        rw [(joined.toOne many).1, List.length_append, List.length_singleton]
        omega
    obtain ⟨parent', path', inside', own', inner', joined', hne⟩ := ih nested near
    exact ⟨parent', path', inside', own', inner', joined'.mono joined.inner_occurs, hne⟩

/-- What a link to one row asks about related rows stands among the conditions, behind the whole
path to the row. -/
theorem Joined.asks {parent : String} {path inside : Path} {gs own inner : List Group}
    {link : Link} {n : Navigation} (h : Joined t root parent path gs link n inside own inner)
    (one : n.isCollection = false)
    (asks : AsksRelated link.filters ∨ JoinsMany t link.name link.links) :
    ∃ p, Occurs p gs ∧ p.path? = some inside := by
  have same := target_eq_of_toOne one link
  rcases asks with ⟨f, hf, hl⟩ | ⟨l, hl, kind, m, resolves, many⟩
  · obtain ⟨w, w', compiled⟩ := h.filters
    rw [same] at compiled
    obtain ⟨g, hg, grouped⟩ := compiled.group (Filter.below_nonEmpty hf (Or.inr hl))
    obtain ⟨l, hl⟩ := List.exists_mem_of_ne_nil _ hl
    obtain ⟨p, hp, related⟩ := grouped.link hl
    refine ⟨p, h.own_occurs p ?_ (.of_below hg hp), related.path?_eq.1⟩
    cases related
    exact related_text_ne
  · obtain ⟨w, w', nested⟩ := h.links
    rw [same] at nested
    obtain ⟨m', inside', own', inner', joined⟩ := nested.member hl kind
    cases resolves.unique joined.resolves
    obtain ⟨range, body, _, ho⟩ := joined.toMany many
    exact ⟨_, h.inner_occurs _ ho, rfl⟩

/-- A link to one row, joined from beyond the first link, has no condition about its own entity, and
at least one condition or link in its filters. -/
theorem Joined.filters_of_path {parent : String} {path inside : Path} {gs own inner : List Group}
    {link : Link} {n : Navigation} (h : Joined t root parent path gs link n inside own inner)
    (one : n.isCollection = false) (hne : path ≠ []) :
    (∀ f c, Below Filter.filters f link.filters → c ∈ f.conditions → c.entityName ≠ none) ∧
      ∃ f, Below Filter.filters f link.filters ∧ (f.conditions ≠ [] ∨ f.links ≠ []) := by
  have same := target_eq_of_toOne one link
  obtain ⟨w, w', compiled⟩ := h.filters
  rw [same] at compiled
  obtain ⟨rfl, reach⟩ := h.toOne one
  constructor
  · intro f c hf hc own_name
    have full := Filter.below_nonEmpty hf (Or.inl (List.ne_nil_of_mem hc))
    obtain ⟨g, _, grouped⟩ := compiled.group full
    obtain ⟨p, _, renders⟩ := grouped.condition hc
    have short := length_le_of_tooDeep_eq_false (renders.own_shape own_name).1
    have := List.length_pos_iff.mpr hne
    simp only [List.length_append, List.length_singleton] at short
    omega
  · have written : Group.texts own ≠ [] := by
      intro empty
      simp [Group.conjunction?, OData.conjunction?, empty, hne] at reach
    obtain ⟨g, hg, hp⟩ := exists_predicate_of_texts written
    obtain ⟨f, hf, grouped⟩ := compiled.filter hg
    obtain ⟨p, hp⟩ := List.exists_mem_of_ne_nil _ hp
    refine ⟨f, hf.mono List.filter_sublist.subset, ?_⟩
    rcases grouped.member hp with ⟨c, hc, _⟩ | ⟨l, hl, _⟩
    · exact Or.inl (List.ne_nil_of_mem hc)
    · exact Or.inr (List.ne_nil_of_mem hl)

def Nested (t : Snapshot) (root : Query.Entity) (link : Link) : Prop :=
  ∃ n depth, InnerChain t link n root.name root.links depth ∧ 2 ≤ depth ∧ n.isCollection = false

theorem RequestOf.reaches {fetch : Fetch} {r : Request} (h : RequestOf t fetch root r)
    {p : Predicate} (ho : Occurs p r.target.filter) :
    Reaches t (∃ link, Nested t root link ∧
      (AsksRelated link.filters ∨ JoinsMany t link.name link.links)) p := by
  obtain ⟨_, _, _, _, _, _, _, _, _, _, _, _, own, _, joined, rfl⟩ := h.parts
  rcases occurs_append ho with ho | ho
  · refine (own.reaches (List.forall_mem_nil _) ho).imp ?_
    rintro ⟨far, _⟩
    simp at far
  · refine (joined.reaches (List.forall_mem_nil _) ho).imp ?_
    rintro (⟨far, _⟩ | ⟨link, n, depth, chain, one, far, asks⟩)
    · simp at far
    · exact ⟨link, ⟨n, depth, chain, by simpa using far, one⟩, asks⟩

theorem RequestOf.nested {fetch : Fetch} {r : Request} (h : RequestOf t fetch root r) {link : Link}
    (hn : Nested t root link) :
    ∃ parent path n inside own inner, n.isCollection = false ∧ path ≠ [] ∧
      Joined t root parent path r.target.filter link n inside own inner := by
  obtain ⟨_, _, _, _, _, _, _, _, _, _, _, _, _, _, joined, rfl⟩ := h.parts
  obtain ⟨n, depth, chain, far, one⟩ := hn
  obtain ⟨parent, path, inside, own, inner, hj, hne⟩ := joined.chained chain (by simpa using far)
  exact ⟨parent, path, n, inside, own, inner, one, hne,
    hj.mono fun p ho => ho.mono (List.subset_append_right _ _)⟩

end Compile

namespace WebQuery
open Query OData Compile

/-- In the filter of a converted query every path is made of navigation properties and range
variables, and a path in front of an attribute has one segment at most. All paths have one at most
exactly if no link to one row, joined below another inner link, asks about related rows: by a link
in its filters, or by an inner link to many rows. A query does not convert if such a link has a
condition about its own entity, or neither a condition nor a link in its filters. -/
theorem filter_reaches_one_level_iff {source : Source σ} {t : Snapshot} {s s' : σ} {base : String}
    {fetch : Fetch} {root : Query.Entity} {q : WebQuery} (stable : source.Shows t s)
    (start : fetch.entity = some root)
    (converts : ofFetch source base fetch s = (.ok q, s')) :
    ∃ r, (request fetch).answer t = .ok r ∧ q.url = r.url base ∧
      (∀ p, Occurs p r.target.filter → ∃ path, p.path? = some path ∧
        (∀ segment ∈ path, Segment t segment) ∧ (p.isRelated = false → path.length ≤ 1)) ∧
      ((∀ p path, Occurs p r.target.filter → p.path? = some path → path.length ≤ 1) ↔
        ∀ link, Nested t root link →
          ¬ AsksRelated link.filters ∧ ¬ JoinsMany t link.name link.links) ∧
      ∀ link, Nested t root link →
        (∀ f c, Below Filter.filters f link.filters → c ∈ f.conditions → c.entityName ≠ none) ∧
          ∃ f, Below Filter.filters f link.filters ∧ (f.conditions ≠ [] ∨ f.links ≠ []) := by
  obtain ⟨r, hr, rfl⟩ := request_of_converts stable converts
  obtain ⟨root', h⟩ := requestOf_of_answer hr
  cases start.symm.trans h.entity_eq
  refine ⟨r, hr, rfl, ?_, ⟨?_, ?_⟩, ?_⟩
  · intro p ho
    obtain ⟨path, hp, segments, short | ⟨related, _⟩⟩ := h.reaches ho
    · exact ⟨path, hp, segments, fun _ => short⟩
    · exact ⟨path, hp, segments, by simp [related]⟩
  · intro short link hn
    obtain ⟨parent, path, n, inside, own, inner, one, hne, joined⟩ := h.nested hn
    rw [← not_or]
    intro asks
    obtain ⟨p, ho, hp⟩ := joined.asks one asks
    have hs := short p inside ho hp
    have := List.length_pos_iff.mpr hne
    rw [(joined.toOne one).1, List.length_append, List.length_singleton] at hs
    omega
  · intro none p path ho hp
    obtain ⟨path', hp', _, short | ⟨_, link, hn, asks⟩⟩ := h.reaches ho
    · cases hp.symm.trans hp'
      exact short
    · exact absurd asks (not_or.mpr (none link hn))
  · intro link hn
    obtain ⟨parent, path, n, inside, own, inner, one, hne, joined⟩ := h.nested hn
    exact joined.filters_of_path one hne

def employerOfMark : Link :=
  { join := { entity := "account", fromColumn := "accountid", toColumn := "parentcustomerid" },
    filters := [{
      links := [{
        join := { entity := "contact", fromColumn := "parentcustomerid", toColumn := "accountid",
                  kind := .related .any false },
        filters := [{ conditions := [
          { column := "firstname", operator := .eq, value := some "Mark" }] }] }] }] }

def accountsByEmployer : Query.Entity :=
  { name := "account",
    links := [{
      join := { entity := "contact", fromColumn := "contactid", toColumn := "primarycontactid" },
      links := [employerOfMark] }] }

/-- A query that converts, although its filter reaches through two navigation properties. -/
theorem filter_reaches_one_level_iff_accountsByEmployer :
    ∃ q s', ofFetch Catalog.source "org" { entity := some accountsByEmployer } Catalog.sample =
        (.ok q, s') ∧
      q.url = "org/accounts?$expand=primarycontactid($expand=parentcustomerid)" ++
        "&$filter=(primarycontactid/contactid ne null) and (primarycontactid/parentcustomerid/" ++
        "contact_customer_accounts/any(x1:(x1/firstname eq 'Mark')))" ∧
      ∃ r, (request { entity := some accountsByEmployer }).answer Catalog.sample.snapshot = .ok r ∧
        ∃ p path, Occurs p r.target.filter ∧ p.path? = some path ∧ 1 < path.length := by
  have converts : ofFetch Catalog.source "org" { entity := some accountsByEmployer }
      Catalog.sample =
        (.ok ⟨"org/accounts?$expand=primarycontactid($expand=parentcustomerid)" ++
          "&$filter=(primarycontactid/contactid ne null) and (primarycontactid/parentcustomerid/" ++
          "contact_customer_accounts/any(x1:(x1/firstname eq 'Mark')))", []⟩, _) :=
    Prod.ext (by decide +kernel) rfl
  obtain ⟨r, hr, _, _, short, _⟩ := filter_reaches_one_level_iff (Catalog.shows _) rfl converts
  have nested : Nested Catalog.sample.snapshot accountsByEmployer employerOfMark :=
    ⟨⟨"parentcustomerid", .toOne⟩, 2,
      .deeper (m := ⟨"primarycontactid", .toOne⟩) List.mem_cons_self rfl (by decide +kernel)
        (.here List.mem_cons_self rfl (by decide +kernel)), Nat.le_refl 2, rfl⟩
  have asks : AsksRelated employerOfMark.filters :=
    ⟨_, .here List.mem_cons_self, List.cons_ne_nil _ _⟩
  refine ⟨_, _, converts, rfl, r, hr, ?_⟩
  by_contra none
  refine (short.mp fun p path ho hp => ?_) _ nested |>.1 asks
  by_contra long
  exact none ⟨p, path, ho, hp, Nat.lt_of_not_le long⟩

end WebQuery

end FetchOData
