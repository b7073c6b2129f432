import FetchOData.Proofs.Coverage

namespace FetchOData

theorem exists_zip_of_forall₂ {R : α → β → Prop} {xs : List α} {ys : List β}
    (h : List.Forall₂ R xs ys) {y : β} (hy : y ∈ ys) : ∃ x, (x, y) ∈ xs.zip ys ∧ R x y := by
  induction h with
  | nil => cases hy
  | cons hr _ ih =>
    rcases List.mem_cons.mp hy with rfl | hy
    · exact ⟨_, List.mem_cons_self, hr⟩
    · obtain ⟨x, hx, hxy⟩ := ih hy
      exact ⟨x, List.mem_cons_of_mem _ hx, hxy⟩

namespace Compile
open Query OData

variable {t : Snapshot} {root : Query.Entity}

/-- The predicate is about rows of the entity that the path leads to: about one of its attributes,
or about rows that one of its navigation properties leads to. -/
inductive About (e : Schema.Entity) (name : String) (path : Path) : Predicate → Prop where
  | compare {operand : Operand} (member : a ∈ e.attributes) :
      About e name path (.compare ⟨path, a.property, a.isManaged⟩ comparison operand)
  | isNull (member : a ∈ e.attributes) :
      About e name path (.isNull ⟨path, a.property, a.isManaged⟩ negated)
  | test (member : a ∈ e.attributes) : About e name path (.test negated test path a.name text)
  | call {arguments : Arguments} (member : a ∈ e.attributes) :
      About e name path (.call path function a.name arguments)
  | related (member : collection ∈ e.navigations name) :
      About e name path (.related negated path collection quantifier range body)

theorem About.path?_eq {e : Schema.Entity} {name : String} {path : Path} {p : Predicate}
    (h : About e name path p) : p.path? = some path := by
  cases h <;> rfl

theorem Shape.about {attr : Schema.Attribute} {path : Path} {c : Condition} {p : Predicate}
    (h : Shape attr path c p) {e : Schema.Entity} (member : attr ∈ e.attributes) (name : String) :
    About e name path p := by
  cases h with
  | compareLiteral => exact .compare member
  | compareColumn => exact .compare member
  | isNull => exact .isNull member
  | likeText => exact .compare member
  | likeTest => exact .test member
  | test => exact .test member
  | call => exact .call member

theorem RelatedBy.about {site : Site} {link : Link} {p : Predicate}
    (h : RelatedBy t root site link p) :
    ∃ e, t.entity site.entity = .ok e ∧ About e site.entity site.path p := by
  cases h with
  | mk kind resolves reading body =>
    obtain ⟨e, he, member⟩ := resolves.navigation
    exact ⟨e, he, .related member⟩

/-- The predicate is about the row that a link of the root, called by the name, leads to. -/
def AboutNamed (t : Snapshot) (root : Query.Entity) (name : String) (p : Predicate) : Prop :=
  ∃ link ∈ root.links, link.isReferencedBy name = true ∧ ∃ n, Resolves t root.name link n ∧
    n.isCollection = false ∧ ∃ e, t.entity link.name = .ok e ∧ About e link.name [n.property] p

/-- Only a link of the root itself is near enough for a condition to name it. -/
theorem Trail.eq_singleton {goal : Link} {parent : String} {links : List Link} {path : Path}
    (h : Trail t goal parent links path) (short : path.length ≤ 1) :
    goal ∈ links ∧ ∃ n, Resolves t parent goal n ∧ n.isCollection = false ∧
      path = [n.property] := by
  cases h with
  | here member resolves one => exact ⟨member, _, resolves, one, rfl⟩
  | deeper member resolves one inner => cases inner <;> simp at short

/-- A condition is about its own entity, or about a link of the root that it names. -/
theorem Renders.about {site : Site} {c : Condition} {p : Predicate}
    (h : Renders t root site c p) :
    (c.entityName = none ∧
        ∃ e, t.entity site.entity = .ok e ∧ About e site.entity site.path p) ∨
      ∃ name, c.entityName = some name ∧ AboutNamed t root name p := by
  obtain ⟨place, e, attr, hs, shallow, he, ha, shape⟩ := h.shape
  have member : attr ∈ e.attributes := List.mem_of_find?_eq_some ha
  cases hn : c.entityName with
  | none =>
    rw [hn] at hs
    obtain ⟨rfl, _⟩ := gives_pure.mp hs
    exact Or.inl ⟨rfl, e, he, shape.about member _⟩
  | some name =>
    rw [hn] at hs
    obtain ⟨goal, trail, called, hg⟩ := trail_of_subject hs
    obtain ⟨hl, n, resolves, one, hp⟩ :=
      trail.eq_singleton (length_le_of_tooDeep_eq_false shallow)
    rw [hg] at he
    rw [hp] at shape
    exact Or.inr ⟨name, rfl, goal, hl, called, n, resolves, one, e, he, shape.about member _⟩

/-- The column that a comparison is made with is one that the condition gives. -/
theorem Renders.valueOf_eq {site : Site} {c : Condition} {property : Property}
    {comparison : Comparison} {column : String}
    (h : Renders t root site c (.compare property comparison (.column column))) :
    c.valueOf = some column := by
  obtain ⟨_, _, _, _, _, _, _, shape⟩ := h.shape
  generalize hp : Predicate.compare property comparison (.column column) = p at shape
  cases shape with
  | compareColumn form bare given =>
    cases hp
    exact given
  | _ => cases hp

/-- The properties that are expanded for links, one for each link with content and in their order,
with those for the links of what it joins below it. -/
inductive OneByOne (t : Snapshot) : String → List Link → List Expand → Prop where
  | nil : OneByOne t parent [] []
  | skip (bare : link.hasContent = false) (rest : OneByOne t parent links es) :
      OneByOne t parent (link :: links) es
  | expand (content : link.hasContent = true) (resolves : Resolves t parent link n)
      (named : e.property = n.property)
      (nested : OneByOne t (target n.route link).name (target n.route link).links e.expand)
      (rest : OneByOne t parent links es) : OneByOne t parent (link :: links) (e :: es)

theorem ExpandsOf.oneByOne {parent : String} {v v' : Variables} {ls : List Link}
    {es : List Expand} (h : ExpandsOf t root parent v ls es v') : OneByOne t parent ls es := by
  induction h with
  | nil => exact .nil
  | skip _ bare _ ih => exact .skip bare ih
  | expand _ content resolves _ _ _ _ _ ihNested ihRest =>
    exact .expand content resolves rfl ihNested ihRest

/-- The property was expanded for the rows of `goal`: it stands where a link with content stands, or
below such a property, and is named for where that link leads. -/
inductive ExpandsTo (t : Snapshot) (e : Expand) :
    Link → String → List Link → List Expand → Prop where
  | here (pair : (link, e) ∈ (links.filter Link.hasContent).zip es)
      (resolves : Resolves t parent link n) (named : e.property = n.property) :
      ExpandsTo t e (target n.route link) parent links es
  | deeper (pair : (above, around) ∈ (links.filter Link.hasContent).zip es)
      (resolves : Resolves t parent above n)
      (inner : ExpandsTo t e goal (target n.route above).name (target n.route above).links
        around.expand) :
      ExpandsTo t e goal parent links es

/-- Every expanded property was expanded for something. -/
theorem ExpandsOf.expandsTo {parent : String} {v v' : Variables} {ls : List Link}
    {es : List Expand} {e f : Expand} (h : ExpandsOf t root parent v ls es v') (hf : f ∈ es)
    (he : e.Within f) : ∃ goal, ExpandsTo t e goal parent ls es := by
  induction he generalizing parent v v' ls es with
  | self =>
    obtain ⟨link, pair, expanded⟩ := exists_zip_of_forall₂ h.forall₂ hf
    cases expanded with
    | mk kind resolves filter nested => exact ⟨_, .here pair resolves rfl⟩
  | nested member inner ih =>
    obtain ⟨above, pair, expanded⟩ := exists_zip_of_forall₂ h.forall₂ hf
    cases expanded with
    | mk kind resolves filter nested =>
      obtain ⟨goal, stands⟩ := ih nested member
      exact ⟨goal, .deeper pair resolves stands⟩

/-- The filter of an expanded property is compiled from filters of what it was expanded for. -/
theorem ExpandsOf.inline {parent : String} {v v' : Variables} {ls : List Link} {es : List Expand}
    {e : Expand} {goal : Link} (h : ExpandsOf t root parent v ls es v')
    (stands : ExpandsTo t e goal parent ls es) :
    ∃ fs w w', fs ⊆ goal.filters ∧ GroupsOf t root ⟨goal.name, []⟩ w fs e.filter w' := by
  induction stands generalizing v v' with
  | here pair resolves named =>
    have expanded := (List.forall₂_iff_zip.mp h.forall₂).2 pair
    cases expanded with
    | mk kind resolves' filter nested =>
      cases resolves.unique resolves'
      unfold InlineOf at filter
      split at filter
      · exact ⟨_, _, _, List.filter_sublist.subset, filter⟩
      · obtain ⟨rfl, _⟩ := filter
        exact ⟨[], {}, {}, List.nil_subset _, .nil⟩
  | deeper pair resolves inner ih =>
    have expanded := (List.forall₂_iff_zip.mp h.forall₂).2 pair
    cases expanded with
    | mk kind resolves' filter nested =>
      cases resolves.unique resolves'
      exact ih nested

/-- What stands in the filter of an expanded property, outside of what it asks of related rows, is
about the entity it was expanded for, unless it comes from a condition that names another link. -/
theorem ExpandsOf.about {parent : String} {v v' : Variables} {ls : List Link} {es : List Expand}
    {e : Expand} {goal : Link} {g : Group} {p : Predicate}
    (h : ExpandsOf t root parent v ls es v') (stands : ExpandsTo t e goal parent ls es)
    (hg : Below Group.groups g e.filter) (hp : p ∈ g.predicates) :
    (∃ record, t.entity goal.name = .ok record ∧ About record goal.name [] p) ∨
      ∃ f c name, Below Filter.filters f goal.filters ∧ c ∈ f.conditions ∧
        Renders t root ⟨goal.name, []⟩ c p ∧ c.entityName = some name ∧
        AboutNamed t root name p := by
  obtain ⟨fs, w, w', hsub, compiled⟩ := h.inline stands
  obtain ⟨f, hf, grouped⟩ := compiled.filter hg
  rcases grouped.member hp with ⟨c, hc, renders⟩ | ⟨link, _, related⟩
  · rcases renders.about with ⟨_, own⟩ | ⟨name, hn, named⟩
    · exact Or.inl own
    · exact Or.inr ⟨f, c, name, hf.mono hsub, hc, renders, hn, named⟩
  · exact Or.inl related.about

theorem ExpandsOf.column {parent : String} {v v' : Variables} {ls : List Link} {es : List Expand}
    {e : Expand} {goal : Link} {g : Group} {property : Property} {comparison : Comparison}
    {column : String} (h : ExpandsOf t root parent v ls es v')
    (stands : ExpandsTo t e goal parent ls es) (hg : Below Group.groups g e.filter)
    (hp : .compare property comparison (.column column) ∈ g.predicates) :
    ∃ f c, Below Filter.filters f goal.filters ∧ c ∈ f.conditions ∧
      Renders t root ⟨goal.name, []⟩ c (.compare property comparison (.column column)) ∧
      c.valueOf = some column := by
  obtain ⟨fs, w, w', hsub, compiled⟩ := h.inline stands
  obtain ⟨f, hf, grouped⟩ := compiled.filter hg
  rcases grouped.member hp with ⟨c, hc, renders⟩ | ⟨link, _, related⟩
  · exact ⟨f, c, hf.mono hsub, hc, renders, renders.valueOf_eq⟩
  · cases related

end Compile

namespace WebQuery
open Query OData Compile

/-- The links with content are expanded one by one, so every property that a conversion expands, at
any depth, was expanded for what a link joins. In its filter, outside of what it asks of related
rows, each predicate begins with an attribute or a navigation property of the joined entity. The
exception are predicates compiled from a condition that names another link. They begin with the
navigation property by which a link of the root, called by that name, leads to one row. A column to
compare with is the one that the condition gives from which the predicate was compiled. -/
theorem expand_filters_about {source : Source σ} {t : Snapshot} {s s' : σ} {base : String}
    {fetch : Fetch} {root : Query.Entity} {q : WebQuery} (stable : source.Shows t s)
    (start : fetch.entity = some root)
    (converts : ofFetch source base fetch s = (.ok q, s')) :
    ∃ r, (request fetch).answer t = .ok r ∧ q.url = r.url base ∧
      OneByOne t root.name root.links r.target.expand ∧
      (∀ f ∈ r.target.expand, ∀ e, e.Within f →
        ∃ goal, ExpandsTo t e goal root.name root.links r.target.expand) ∧
      ∀ e goal g, ExpandsTo t e goal root.name root.links r.target.expand →
        Below Group.groups g e.filter →
          (∀ p ∈ g.predicates,
            (∃ record, t.entity goal.name = .ok record ∧ About record goal.name [] p) ∨
              ∃ f c name, Below Filter.filters f goal.filters ∧ c ∈ f.conditions ∧
                Renders t root ⟨goal.name, []⟩ c p ∧ c.entityName = some name ∧
                AboutNamed t root name p) ∧
          ∀ property comparison column,
            .compare property comparison (.column column) ∈ g.predicates →
              ∃ f c, Below Filter.filters f goal.filters ∧ c ∈ f.conditions ∧
                Renders t root ⟨goal.name, []⟩ c
                  (.compare property comparison (.column column)) ∧
                c.valueOf = some column := by
  obtain ⟨r, hr, rfl⟩ := request_of_converts stable converts
  obtain ⟨root', h⟩ := requestOf_of_answer hr
  cases start.symm.trans h.entity_eq
  obtain ⟨_, _, _, _, _, _, _, _, _, _, _, _, _, expanded, _, rfl⟩ := h.parts
  refine ⟨_, hr, rfl, expanded.oneByOne, fun f hf e he => expanded.expandsTo hf he, ?_⟩
  intro e goal g stands hg
  exact ⟨fun p hp => expanded.about stands hg hp,
    fun property comparison column hp => expanded.column stands hg hp⟩

def primaryContact : Link :=
  { join := { entity := "contact", fromColumn := "contactid", toColumn := "primarycontactid",
              kind := .outer, aliasName := some "pc" } }

def leadsWhere (conditions : List Condition) : Link :=
  { join := { entity := "accountleads", fromColumn := "accountid", toColumn := "accountid",
              kind := .outer },
    links := [{
      join := { entity := "lead", fromColumn := "leadid", toColumn := "leadid", kind := .outer },
      filters := [{ conditions }] }] }

def contactIsMark : Condition :=
  { column := "firstname", operator := .eq, value := some "Mark", entityName := some "pc" }

def leadsOfMark : Query.Entity :=
  { name := "account",
    links := [primaryContact,
      leadsWhere [{ column := "subject", operator := .isNull }, contactIsMark]] }

/-- Of two conditions on leads one is about leads. The other names the primary contact and is about
it. -/
theorem expand_filters_about_leadsOfMark :
    ∃ q s', ofFetch Catalog.source "org" { entity := some leadsOfMark } Catalog.sample =
        (.ok q, s') ∧
      q.url = "org/accounts?$expand=accountleads_association(" ++
        "$filter=(subject eq null and primarycontactid/firstname eq 'Mark'))" ∧
      (∃ lead, Catalog.sample.snapshot.entity "lead" = .ok lead ∧
        About lead "lead" [] (.isNull ⟨[], "subject", false⟩ false)) ∧
      Renders Catalog.sample.snapshot leadsOfMark ⟨"lead", []⟩ contactIsMark
        (.compare ⟨["primarycontactid"], "firstname", false⟩ .eq (.literal "'Mark'")) ∧
      AboutNamed Catalog.sample.snapshot leadsOfMark "pc"
        (.compare ⟨["primarycontactid"], "firstname", false⟩ .eq (.literal "'Mark'")) := by
  have converts : ofFetch Catalog.source "org" { entity := some leadsOfMark } Catalog.sample =
      (.ok ⟨"org/accounts?$expand=accountleads_association(" ++
        "$filter=(subject eq null and primarycontactid/firstname eq 'Mark'))", []⟩, _) :=
    Prod.ext (by decide +kernel) rfl
  obtain ⟨r, hr, _, _, _, about⟩ := expand_filters_about (Catalog.shows _) rfl converts
  let filter : List Group :=
    [{ predicates := [.isNull ⟨[], "subject", false⟩ false,
      .compare ⟨["primarycontactid"], "firstname", false⟩ .eq (.literal "'Mark'")] }]
  let leads : Expand := { property := "accountleads_association", filter }
  have request : (Compile.request { entity := some leadsOfMark }).answer Catalog.sample.snapshot =
      .ok { target := { property := "accounts", expand := [leads] } } := by
    with_unfolding_all rfl
  cases request.symm.trans hr
  have stands : ExpandsTo Catalog.sample.snapshot leads _ "account" leadsOfMark.links [leads] :=
    .here (n := ⟨"accountleads_association", .across⟩) List.mem_cons_self (by decide +kernel) rfl
  have predicates := (about leads _ _ stands (.here List.mem_cons_self)).1
  refine ⟨_, _, converts, rfl, ?_⟩
  constructor
  · rcases predicates _ List.mem_cons_self with own | ⟨_, _, _, _, _, _, _, named⟩
    · exact own
    · obtain ⟨_, _, _, _, _, _, _, _, other⟩ := named
      cases other.path?_eq
  · rcases predicates _ (List.mem_cons_of_mem _ List.mem_cons_self) with
      ⟨_, _, own⟩ | ⟨f, c, name, below, member, renders, called, named⟩
    · cases own.path?_eq
    · rw [below.eq_of_leaf rfl] at member
      rcases List.mem_cons.mp member with rfl | member
      · cases called
      · cases List.mem_singleton.mp member
        cases called
        exact ⟨renders, named⟩

def ownedLeads : Schema.Entity :=
  { name := "lead", setName := some "leads", primaryKey := "leadid",
    attributes := [⟨"subject", .string, [], none⟩, ⟨"ownerid", .owner, ["systemuser"], none⟩],
    manyToMany := [Schema.Association.named "accountleads_association" "accountleads"
      ("account", "accountid") ("lead", "leadid")] }

def leadsElsewhere : Query.Entity :=
  { name := "account",
    links := [primaryContact, leadsWhere [contactIsMark,
      { column := "subject", operator := .eq, valueOf := some "name" },
      { column := "ownerid", operator := .beginsWith, value := some "A" }]] }

/-- A filter on leads that uses three names, none of them a property of leads: a navigation property
of accounts, a column of accounts to compare with, and an attribute whose property has another
name. -/
theorem expand_filter_elsewhere :
    ((Catalog.sample.insert ownedLeads).entity "lead").map
        (fun e => e.attributes.map (·.property) ++ e.navigations "lead") =
      .ok ["subject", "_ownerid_value", "accountleads_association"] ∧
    (ofFetch Catalog.source "org" { entity := some leadsElsewhere }
        (Catalog.sample.insert ownedLeads)).1 =
      .ok ⟨"org/accounts?$expand=accountleads_association(" ++
        "$filter=(primarycontactid/firstname eq 'Mark' and subject eq name and " ++
        "startswith(ownerid, 'A')))", []⟩ := by
  decide +kernel

end WebQuery

end FetchOData
