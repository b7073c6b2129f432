import FetchOData.Proofs.Snapshot

namespace FetchOData

def Schema.Entity.navigations (e : Schema.Entity) (name : String) : List String :=
  (e.oneToMany.filter fun r => r.referencedEntity == name).filterMap (·.referencedNavigation) ++
    (e.manyToOne.filter fun r => r.referencingEntity == name).filterMap (·.referencingNavigation) ++
    ((e.manyToMany.flatMap (·.orientations)).filter fun s => s.1.entity == name).filterMap
      (·.1.navigation)

namespace Compile
open Query OData

variable {t : Snapshot} {v v' : Variables}

/-- The link stands for an association between the two sides: it leaves from the parent's side, and
its only nested link arrives at the other. -/
structure Crosses (parent : String) (link next : Link) (near far : Schema.Side) : Prop where
  leaves : near.entity = parent
  leavesBy : near.intersectAttribute = some link.join.fromColumn
  single : link.links = [next]
  arrives : next.name = far.entity
  arrivesBy : far.intersectAttribute = some next.join.toColumn

inductive Leads (record : Schema.Entity) (parent : String) (link : Link) : Navigation → Prop where
  | toMany (member : r ∈ record.oneToMany) (fits : leadsToMany parent link.join r = true)
      (named : r.referencedNavigation = some property) :
      Leads record parent link ⟨property, .toMany⟩
  | toOne (member : r ∈ record.manyToOne) (fits : leadsToOne parent link.join r = true)
      (named : r.referencingNavigation = some property) :
      Leads record parent link ⟨property, .toOne⟩
  | across (member : a ∈ record.manyToMany) (intersect : a.intersectEntity = link.name)
      (oriented : (near, far) ∈ a.orientations) (crosses : Crosses parent link next near far)
      (named : near.navigation = some property) : Leads record parent link ⟨property, .across⟩

theorem through_eq_ok {parent : String} {join : Join} {route : Route} {property : Option String}
    {n : Navigation} (h : through parent join route property = .ok n) :
    property = some n.property ∧ route = n.route := by
  unfold through at h
  split at h
  · cases h
    exact ⟨rfl, rfl⟩
  · cases h

theorem navigateAcross_eq_ok {parent : String} {link : Link}
    {sides : List (Schema.Side × Schema.Side)} {n : Navigation}
    (h : navigateAcross parent link sides = .ok n) :
    .across = n.route ∧ ∃ near far next, (near, far) ∈ sides ∧ Crosses parent link next near far ∧
      near.navigation = some n.property := by
  induction sides with
  | nil => cases h
  | cons side sides ih =>
    obtain ⟨near, far⟩ := side
    have further (h : navigateAcross parent link sides = .ok n) :
        .across = n.route ∧ ∃ near' far' next, (near', far') ∈ (near, far) :: sides ∧
          Crosses parent link next near' far' ∧ near'.navigation = some n.property := by
      obtain ⟨hr, near', far', next, hm, hc⟩ := ih h
      exact ⟨hr, near', far', next, List.mem_cons_of_mem _ hm, hc⟩
    rw [navigateAcross] at h
    split at h
    · rename_i leaves
      split at h
      · exact further h
      · rename_i next single
        split at h
        · rename_i arrives
          simp only [Bool.and_eq_true, beq_iff_eq] at leaves arrives
          obtain ⟨named, route⟩ := through_eq_ok h
          exact ⟨route, near, far, next, List.mem_cons_self,
            ⟨leaves.1, leaves.2, single, arrives.1, arrives.2⟩, named⟩
        · exact further h
      · cases h
    · exact further h

theorem leads_of_navigate {record : Schema.Entity} {parent : String} {link : Link} {n : Navigation}
    (h : navigate record parent link = .ok n) : Leads record parent link n := by
  obtain ⟨property, route⟩ := n
  unfold navigate at h
  split at h
  · rename_i r hf
    obtain ⟨named, rfl⟩ := through_eq_ok h
    exact .toMany (List.mem_of_find?_eq_some hf) (List.find?_some hf) named
  · split at h
    · rename_i r hf
      obtain ⟨named, rfl⟩ := through_eq_ok h
      exact .toOne (List.mem_of_find?_eq_some hf) (List.find?_some hf) named
    · obtain ⟨rfl, near, far, next, hm, crosses, named⟩ := navigateAcross_eq_ok h
      obtain ⟨a, ha, oriented⟩ := List.mem_flatMap.mp hm
      obtain ⟨member, intersect⟩ := List.mem_filter.mp ha
      exact .across member (by simpa using intersect) oriented crosses named

/-- Every way goes by a navigation property that leads away from the parent. -/
theorem Leads.property_mem {record : Schema.Entity} {parent : String} {link : Link}
    {n : Navigation} (h : Leads record parent link n) :
    n.property ∈ record.navigations parent := by
  unfold Schema.Entity.navigations
  simp only [List.mem_append, List.mem_filterMap, List.mem_filter, List.mem_flatMap, beq_iff_eq]
  cases h with
  | @toMany r _ member fits named =>
    simp only [leadsToMany, Bool.and_eq_true, beq_iff_eq] at fits
    exact Or.inl (Or.inl ⟨r, ⟨member, fits.1.1.1⟩, named⟩)
  | @toOne r _ member fits named =>
    simp only [leadsToOne, Bool.and_eq_true, beq_iff_eq] at fits
    exact Or.inl (Or.inr ⟨r, ⟨member, fits.1.1.1⟩, named⟩)
  | @across a near far _ _ member _ oriented crosses named =>
    exact Or.inr ⟨(near, far), ⟨⟨a, member, oriented⟩, crosses.leaves⟩, named⟩

theorem target_eq_self {route : Route} (h : route ≠ .across) (link : Link) :
    target route link = link := by
  unfold target
  split
  · exact absurd rfl h
  · rfl

theorem Navigation.route_eq_toOne {n : Navigation} (h : n.isCollection = false) :
    n.route = .toOne := by
  simpa [Navigation.isCollection] using h

/-- A link to one row crosses nothing. -/
theorem target_eq_of_toOne {n : Navigation} (h : n.isCollection = false) (link : Link) :
    target n.route link = link :=
  target_eq_self (by simp [Navigation.route_eq_toOne h]) link

/-- By the snapshot, the link is reached from the parent in this way. -/
def Resolves (t : Snapshot) (parent : String) (link : Link) (n : Navigation) : Prop :=
  ∃ record, t.entity parent = .ok record ∧ navigate record parent link = .ok n

theorem Resolves.unique {parent : String} {link : Link} {n m : Navigation}
    (hn : Resolves t parent link n) (hm : Resolves t parent link m) : n = m := by
  obtain ⟨record, hr, hn⟩ := hn
  obtain ⟨other, ho, hm⟩ := hm
  cases hr.symm.trans ho
  exact Except.ok.inj (hn.symm.trans hm)

theorem Resolves.navigation {parent : String} {link : Link} {n : Navigation}
    (h : Resolves t parent link n) :
    ∃ record, t.entity parent = .ok record ∧ n.property ∈ record.navigations parent := by
  obtain ⟨record, hr, h⟩ := h
  exact ⟨record, hr, (leads_of_navigate h).property_mem⟩

theorem resolves_iff {parent : String} {link : Link} {n : Navigation} :
    Resolves t parent link n ↔
      (t.entity parent).toOption.bind (fun record => (navigate record parent link).toOption) =
        some n := by
  unfold Resolves
  cases t.entity parent with
  | error cause => simp [Except.toOption]
  | ok record => cases h : navigate record parent link <;> simp [Except.toOption, h]

instance (parent : String) (link : Link) (n : Navigation) : Decidable (Resolves t parent link n) :=
  decidable_of_iff _ resolves_iff.symm

@[simp] theorem gives_resolve {parent : String} {link : Link} {n : Navigation} :
    Gives t (resolve parent link) v n v' ↔ Resolves t parent link n ∧ v = v' := by
  simp only [resolve, gives_bind, gives_entity, gives_ofExcept]
  constructor
  · rintro ⟨record, w, ⟨hr, rfl⟩, hn, rfl⟩
    exact ⟨⟨record, hr, hn⟩, rfl⟩
  · rintro ⟨⟨record, hr, hn⟩, rfl⟩
    exact ⟨record, v, ⟨hr, rfl⟩, hn, rfl⟩

/-- The compilation comes to the same whatever variables are in use, and uses none itself. -/
def Constant (t : Snapshot) (m : Compile α) : Prop :=
  ∀ ⦃v a v'⦄, Gives t m v a v' → v = v' ∧ ∀ w, Gives t m w a w

theorem constant_pure (a : α) : Constant t (pure a : Compile α) := by
  intro v b v' h
  obtain ⟨rfl, rfl⟩ := gives_pure.mp h
  exact ⟨rfl, fun w => gives_pure.mpr ⟨rfl, rfl⟩⟩

theorem constant_reject (fault : Fault) : Constant t (reject fault : Compile α) :=
  fun _ _ _ h => absurd h gives_reject

theorem Constant.bind {m : Compile α} {f : α → Compile β} (hm : Constant t m)
    (hf : ∀ a, Constant t (f a)) : Constant t (m >>= f) := by
  intro v b v' h
  obtain ⟨a, w, ha, hb⟩ := gives_bind.mp h
  obtain ⟨rfl, hm⟩ := hm ha
  obtain ⟨rfl, hf⟩ := hf a hb
  exact ⟨rfl, fun w => gives_bind.mpr ⟨a, w, hm w, hf w⟩⟩

theorem Constant.map {m : Compile α} (hm : Constant t m) (f : α → β) : Constant t (f <$> m) := by
  rw [← bind_pure_comp]
  exact hm.bind fun a => constant_pure (f a)

theorem constant_entity (name : String) : Constant t (entity name) := by
  intro v e v' h
  obtain ⟨he, rfl⟩ := gives_entity.mp h
  exact ⟨rfl, fun w => gives_entity.mpr ⟨he, rfl⟩⟩

theorem constant_typeCode (code : Int32) : Constant t (typeCode code) := by
  intro v e v' h
  obtain ⟨he, rfl⟩ := gives_typeCode.mp h
  exact ⟨rfl, fun w => gives_typeCode.mpr ⟨he, rfl⟩⟩

theorem constant_ofExcept (toFault : ε → Fault) (x : Except ε α) :
    Constant t (ofExcept toFault x) := by
  intro v a v' h
  obtain ⟨hx, rfl⟩ := gives_ofExcept.mp h
  exact ⟨rfl, fun w => gives_ofExcept.mpr ⟨hx, rfl⟩⟩

theorem constant_resolve (parent : String) (link : Link) : Constant t (resolve parent link) := by
  intro v n v' h
  obtain ⟨hn, rfl⟩ := gives_resolve.mp h
  exact ⟨rfl, fun w => gives_resolve.mpr ⟨hn, rfl⟩⟩

theorem constant_mapM {f : α → Compile β} (hf : ∀ a, Constant t (f a)) (xs : List α) :
    Constant t (xs.mapM f) := by
  induction xs with
  | nil => exact constant_pure []
  | cons x xs ih =>
    rw [List.mapM_cons]
    exact (hf x).bind fun y => ih.bind fun ys => constant_pure (y :: ys)

theorem constant_findLink (name parent : String) (path : Path) (collection : Bool)
    (links : List Link) : Constant t (findLink name parent path collection links) := by
  match links with
  | [] =>
    rw [findLink]
    exact constant_pure none
  | link :: rest =>
    rw [findLink]
    refine (constant_resolve parent link).bind fun n => ?_
    dsimp only
    split
    · exact constant_pure _
    · refine (constant_findLink name _ _ _ (target n.route link).links).bind fun found => ?_
      cases found with
      | some sighting => exact constant_pure _
      | none => exact constant_findLink name parent path collection rest
termination_by Link.sizes links
decreasing_by
  · exact sizes_target_links_lt ..
  · exact sizes_rest_lt ..

inductive Trail (t : Snapshot) (goal : Link) : String → List Link → Path → Prop where
  | here (member : goal ∈ links) (resolves : Resolves t parent goal n)
      (one : n.isCollection = false) : Trail t goal parent links [n.property]
  | deeper {above : Link} (member : above ∈ links) (resolves : Resolves t parent above n)
      (one : n.isCollection = false) (inner : Trail t goal above.name above.links path) :
      Trail t goal parent links (n.property :: path)

theorem Trail.mono {goal : Link} {parent : String} {ls ms : List Link} {path : Path}
    (h : Trail t goal parent ls path) (hsub : ls ⊆ ms) : Trail t goal parent ms path := by
  cases h with
  | here member resolves one => exact .here (hsub member) resolves one
  | deeper member resolves one inner => exact .deeper (hsub member) resolves one inner

/-- Each segment is the navigation property of a link. -/
theorem Trail.forall_mem {P : String → Prop} {goal : Link} {parent : String} {links : List Link}
    {path : Path} (h : Trail t goal parent links path)
    (hP : ∀ parent link n, Resolves t parent link n → P n.property) : ∀ s ∈ path, P s := by
  induction h with
  | here member resolves one => simpa using hP _ _ _ resolves
  | deeper member resolves one inner ih => simpa using ⟨hP _ _ _ resolves, ih⟩

/-- A link that is found by a name, with no step to it that leads to many rows, lies on a walk
through the links that are searched. -/
theorem trail_of_findLink {name parent : String} {path : Path} {collection : Bool}
    {links : List Link} {s : Sighting} {v v' : Variables}
    (h : Gives t (findLink name parent path collection links) v (some s) v')
    (hc : s.collection = false) :
    collection = false ∧ ∃ goal more, Trail t goal parent links more ∧
      goal.isReferencedBy name = true ∧ s.site = ⟨goal.name, path ++ more⟩ := by
  match links with
  | [] =>
    rw [findLink] at h
    cases (gives_pure.mp h).1
  | link :: rest =>
    rw [findLink] at h
    obtain ⟨n, _, hb, h⟩ := gives_bind.mp h
    obtain ⟨hn, rfl⟩ := gives_resolve.mp hb
    dsimp only at h
    split at h
    · rename_i called
      cases (gives_pure.mp h).1
      obtain ⟨start, one⟩ := Bool.or_eq_false_iff.mp hc
      rw [target_eq_of_toOne one] at called ⊢
      exact ⟨start, link, [n.property], .here List.mem_cons_self hn one, by simpa using called, rfl⟩
    · obtain ⟨found, _, hf, h⟩ := gives_bind.mp h
      cases found with
      | some sighting =>
        cases (gives_pure.mp h).1
        obtain ⟨above, goal, more, trail, called, hs⟩ := trail_of_findLink hf hc
        obtain ⟨start, one⟩ := Bool.or_eq_false_iff.mp above
        rw [target_eq_of_toOne one] at trail
        exact ⟨start, goal, n.property :: more, .deeper List.mem_cons_self hn one trail, called,
          by simp [hs]⟩
      | none =>
        obtain ⟨start, goal, more, trail, called, hs⟩ := trail_of_findLink h hc
        exact ⟨start, goal, more, trail.mono (List.subset_cons_self _ _), called, hs⟩
termination_by Link.sizes links
decreasing_by
  all_goals first | exact sizes_target_links_lt .. | exact sizes_rest_lt ..

/-- A condition that names a link is about the row that a walk from the root to it leads to. -/
theorem trail_of_subject {root : Query.Entity} {site place : Site} {name : String}
    (h : Gives t (subject root site (some name)) v place v') :
    ∃ goal, Trail t goal root.name root.links place.path ∧ goal.isReferencedBy name = true ∧
      place.entity = goal.name := by
  obtain ⟨found, _, hf, h⟩ := gives_bind.mp h
  cases found with
  | none => exact absurd h gives_reject
  | some sighting =>
    dsimp only at h
    split at h
    · exact absurd h gives_reject
    · rename_i hc
      cases (gives_pure.mp h).1
      obtain ⟨_, goal, more, trail, called, hs⟩ := trail_of_findLink hf (by simpa using hc)
      exact ⟨goal, by simpa [hs] using trail, called, by simp [hs]⟩

theorem constant_subject (root : Query.Entity) (site : Site) (name : Option String) :
    Constant t (subject root site name) := by
  cases name with
  | none => exact constant_pure site
  | some name =>
    refine (constant_findLink name _ _ _ _).bind fun found => ?_
    cases found with
    | none => exact constant_reject _
    | some sighting =>
      dsimp only
      split
      · exact constant_reject _
      · exact constant_pure _

theorem constant_literal (attr : Schema.Attribute) (value : String) :
    Constant t (literal attr value) := by
  unfold literal
  split
  · exact (constant_typeCode _).bind fun record => constant_pure _
  · exact constant_ofExcept _ _

theorem constant_requiredValue (c : Condition) : Constant t (requiredValue c) := by
  unfold requiredValue
  split
  · exact constant_pure _
  · exact constant_reject _

theorem constant_operand (attr : Schema.Attribute) (c : Condition) :
    Constant t (operand attr c) := by
  unfold operand
  split
  · exact constant_pure _
  · exact (constant_requiredValue c).bind fun value =>
      (constant_literal attr value).bind fun text => constant_pure _

theorem constant_arguments (c : Condition) (arity : Arity) : Constant t (arguments c arity) := by
  cases arity with
  | none => exact constant_pure _
  | one kind =>
    exact (constant_requiredValue c).bind fun value =>
      (constant_ofExcept _ _).bind fun text => constant_pure _
  | two kind =>
    rw [arguments]
    split
    · exact (constant_ofExcept _ _).bind fun first =>
        (constant_ofExcept _ _).bind fun second => constant_pure _
    · exact constant_reject _
  | many kind =>
    have hf (values : List String) :
        Constant t (do return .many (← values.mapM (formatted kind)) : Compile Arguments) :=
      (constant_mapM (fun _ => constant_ofExcept _ _) values).bind fun _ => constant_pure _
    rw [arguments]
    dsimp only
    split
    · exact ((constant_requiredValue c).map _).bind hf
    · exact (constant_pure _).bind hf

theorem constant_likePredicate (attr : Schema.Attribute) (path : Path) (property : Property)
    (negated : Bool) (value : String) :
    Constant t (likePredicate attr path property negated value) := by
  unfold likePredicate
  split
  · exact constant_reject _
  · split
    · exact (constant_literal attr _).bind fun text => constant_pure _
    all_goals exact constant_pure _

theorem constant_predicate (attr : Schema.Attribute) (path : Path) (c : Condition) :
    Constant t (predicate attr path c) := by
  unfold predicate
  dsimp only
  split
  · exact (constant_operand attr c).bind fun operand => constant_pure _
  · exact constant_pure _
  · exact (constant_requiredValue c).bind fun value => constant_likePredicate ..
  · exact (constant_requiredValue c).bind fun value => constant_pure _
  · exact (constant_arguments c _).bind fun arguments => constant_pure _

theorem constant_condition (root : Query.Entity) (site : Site) (c : Condition) :
    Constant t (condition root site c) := by
  refine (constant_subject root site c.entityName).bind fun place => ?_
  split
  · exact constant_reject _
  · refine (constant_entity place.entity).bind fun record => ?_
    split
    · exact constant_predicate ..
    · exact constant_reject _

/-- The condition, standing at the site, is written as the predicate. -/
def Renders (t : Snapshot) (root : Query.Entity) (site : Site) (c : Condition) (p : Predicate) :
    Prop :=
  ∀ v, Gives t (condition root site c) v p v

theorem gives_condition {root : Query.Entity} {site : Site} {c : Condition} {p : Predicate} :
    Gives t (condition root site c) v p v' ↔ Renders t root site c p ∧ v = v' := by
  constructor
  · intro h
    obtain ⟨rfl, hc⟩ := constant_condition root site c h
    exact ⟨hc, rfl⟩
  · rintro ⟨h, rfl⟩
    exact h v

inductive Shape (attr : Schema.Attribute) (path : Path) (c : Condition) : Predicate → Prop where
  | compareLiteral (form : Form.ofOperator c.operator = .compare comparison)
      (given : c.value = some value) (text : String) :
      Shape attr path c (.compare ⟨path, attr.property, attr.isManaged⟩ comparison (.literal text))
  | compareColumn (form : Form.ofOperator c.operator = .compare comparison)
      (bare : c.value = none) (column : c.valueOf = some name) :
      Shape attr path c (.compare ⟨path, attr.property, attr.isManaged⟩ comparison (.column name))
  | isNull (form : Form.ofOperator c.operator = .isNull negated) :
      Shape attr path c (.isNull ⟨path, attr.property, attr.isManaged⟩ negated)
  | likeText (form : Form.ofOperator c.operator = .like negated) (text : String) :
      Shape attr path c (.compare ⟨path, attr.property, attr.isManaged⟩
        (if negated then .ne else .eq) (.literal text))
  | likeTest (form : Form.ofOperator c.operator = .like negated) (test : TextTest)
      (text : String) : Shape attr path c (.test negated test path attr.name text)
  | test (form : Form.ofOperator c.operator = .test negated test) (text : String) :
      Shape attr path c (.test negated test path attr.name text)
  | call (form : Form.ofOperator c.operator = .call function arity) (arguments : Arguments) :
      Shape attr path c (.call path function attr.name arguments)

theorem value_of_gives {c : Condition} {value : String}
    (h : Gives t (requiredValue c) v value v') : c.value = some value := by
  unfold requiredValue at h
  split at h
  · rename_i given hv
    obtain ⟨rfl, rfl⟩ := gives_pure.mp h
    exact hv
  · exact absurd h gives_reject

theorem shape_of_gives_like {attr : Schema.Attribute} {path : Path} {c : Condition}
    {negated : Bool} {value : String} {p : Predicate}
    (form : Form.ofOperator c.operator = .like negated)
    (h : Gives t (likePredicate attr path ⟨path, attr.property, attr.isManaged⟩ negated value)
      v p v') : Shape attr path c p := by
  unfold likePredicate at h
  split at h
  · exact absurd h gives_reject
  · split at h
    · obtain ⟨text, w, _, hp⟩ := gives_bind.mp h
      obtain ⟨rfl, rfl⟩ := gives_pure.mp hp
      exact .likeText form text
    all_goals
      obtain ⟨rfl, rfl⟩ := gives_pure.mp h
      exact .likeTest form _ _

theorem shape_of_gives {attr : Schema.Attribute} {path : Path} {c : Condition} {p : Predicate}
    (h : Gives t (predicate attr path c) v p v') : Shape attr path c p := by
  unfold predicate at h
  dsimp only at h
  split at h
  · rename_i comparison form
    obtain ⟨operand, w, ho, hp⟩ := gives_bind.mp h
    obtain ⟨rfl, rfl⟩ := gives_pure.mp hp
    unfold Compile.operand at ho
    split at ho
    · rename_i name hv hn
      obtain ⟨rfl, rfl⟩ := gives_pure.mp ho
      exact .compareColumn form hv hn
    · simp only [gives_bind, gives_pure] at ho
      obtain ⟨value, _, hr, text, _, _, rfl, rfl⟩ := ho
      exact .compareLiteral form (value_of_gives hr) text
  · rename_i negated form
    obtain ⟨rfl, rfl⟩ := gives_pure.mp h
    exact .isNull form
  · rename_i negated form
    obtain ⟨value, w, _, hp⟩ := gives_bind.mp h
    exact shape_of_gives_like form hp
  · rename_i negated test form
    obtain ⟨value, w, _, hp⟩ := gives_bind.mp h
    obtain ⟨rfl, rfl⟩ := gives_pure.mp hp
    exact .test form value
  · rename_i function arity form
    obtain ⟨arguments, w, _, hp⟩ := gives_bind.mp h
    obtain ⟨rfl, rfl⟩ := gives_pure.mp hp
    exact .call form arguments

theorem length_le_count_slash (path : Path) : path.length ≤ path.text.toList.count '/' := by
  induction path with
  | nil => simp
  | cons segment rest ih =>
    simp only [Path.text, String.toList_append, List.count_append, List.length_cons]
    have slash : "/".toList.count '/' = 1 := rfl
    omega

theorem length_le_of_tooDeep_eq_false {path : Path} (h : tooDeep path = false) :
    path.length ≤ 1 := by
  have hc : path.text.toList.count '/' < 2 := by simpa [tooDeep] using h
  have := length_le_count_slash path
  omega

/-- A condition that is written has an attribute, on its own entity unless it names a link. -/
theorem Renders.shape {root : Query.Entity} {site : Site} {c : Condition} {p : Predicate}
    (h : Renders t root site c p) :
    ∃ place record attr, Gives t (subject root site c.entityName) {} place {} ∧
      tooDeep place.path = false ∧ t.entity place.entity = .ok record ∧
      record.findAttribute? c.column = some attr ∧ Shape attr place.path c p := by
  obtain ⟨place, w, hs, h⟩ := gives_bind.mp (h {})
  obtain ⟨rfl, _⟩ := constant_subject root site c.entityName hs
  split at h
  · exact absurd h gives_reject
  · rename_i hd
    obtain ⟨record, w, hr, h⟩ := gives_bind.mp h
    obtain ⟨he, rfl⟩ := gives_entity.mp hr
    split at h
    · rename_i attr ha
      exact ⟨place, record, attr, hs, by simpa using hd, he, ha, shape_of_gives h⟩
    · exact absurd h gives_reject

/-- A condition that names no link is about the entity it stands on. -/
theorem Renders.own_shape {root : Query.Entity} {site : Site} {c : Condition} {p : Predicate}
    (h : Renders t root site c p) (hn : c.entityName = none) :
    tooDeep site.path = false ∧ ∃ record attr, t.entity site.entity = .ok record ∧
      record.findAttribute? c.column = some attr ∧ Shape attr site.path c p := by
  obtain ⟨place, record, attr, hs, hd, hr, ha, hp⟩ := h.shape
  rw [hn] at hs
  obtain ⟨rfl, _⟩ := gives_pure.mp hs
  exact ⟨hd, record, attr, hr, ha, hp⟩

theorem Shape.text_ne {attr : Schema.Attribute} {path : Path} {c : Condition} {p : Predicate}
    (h : Shape attr path c p) : p.text ≠ "" := by
  intro he
  have := congrArg String.toList he
  cases h <;> simp [Predicate.text] at this
  all_goals split at this <;> simp at this

/-- No condition is written as nothing. -/
theorem Renders.text_ne {root : Query.Entity} {site : Site} {c : Condition} {p : Predicate}
    (h : Renders t root site c p) : p.text ≠ "" := by
  obtain ⟨_, _, _, _, _, _, _, hp⟩ := h.shape
  exact hp.text_ne

end Compile

end FetchOData
