import FetchOData.Proofs.Coverage
import FetchOData.Proofs.Inversion
import FetchOData.Proofs.LiteralText
import FetchOData.Proofs.Phrase
import FetchOData.Proofs.Transparency

namespace FetchOData
open Text (IsIdentifier IsVariable)

/-- The names that may be written, beside the columns that are compared with and the titles of
aggregates. -/
structure Lexicon where
  name : String → Prop
  column : String → Prop
  title : String → Prop
  identifier (n : String) (h : name n) : IsIdentifier n
  lookup (n : String) (h : name n) : name ("_" ++ n ++ "_value")
  entitled (n : String) (h : name n) : title n

def Schema.Entity.names (e : Schema.Entity) : List String :=
  e.collection.toOption.toList ++ e.primaryKey :: e.attributes.map (·.name) ++
    e.oneToMany.filterMap (·.referencedNavigation) ++
    e.manyToOne.filterMap (·.referencingNavigation) ++
    (e.manyToMany.flatMap (·.orientations)).filterMap (·.1.navigation)

def Schema.Entity.Named (P : String → Prop) (e : Schema.Entity) : Prop :=
  ∀ n ∈ e.names, P n

def Snapshot.Named (P : String → Prop) (t : Snapshot) : Prop :=
  ∀ name e, t.entity name = .ok e → e.Named P

theorem Catalog.named_snapshot {P : String → Prop} {c : Catalog}
    (h : ∀ e ∈ c.records, ∀ n ∈ e.names, P n) : c.snapshot.Named P := by
  intro name e he
  exact h e (mem_records.mpr ⟨name, entity_eq_ok_iff.mp he⟩)

namespace Schema.Entity.Named

variable {P : String → Prop} {e : Schema.Entity}

theorem collection (h : e.Named P) {n : String} (hn : e.collection = .ok n) : P n :=
  h n (by simp [names, hn, Except.toOption])

theorem primaryKey (h : e.Named P) : P e.primaryKey :=
  h _ (by simp [names])

theorem attributes (h : e.Named P) {a : Attribute} (ha : a ∈ e.attributes) : P a.name := by
  have hm := List.mem_map_of_mem (f := (·.name)) ha
  exact h _ (by simp only [names, List.mem_append, List.mem_cons]; tauto)

theorem navigations (h : e.Named P) {parent n : String} (hn : n ∈ e.navigations parent) : P n := by
  apply h
  simp only [Entity.navigations, List.mem_append, List.mem_filterMap, List.mem_filter] at hn
  simp only [names, List.mem_append, List.mem_filterMap]
  rcases hn with (⟨r, ⟨hr, _⟩, hn⟩ | ⟨r, ⟨hr, _⟩, hn⟩) | ⟨s, ⟨hs, _⟩, hn⟩
  · exact Or.inl (Or.inl (Or.inr ⟨r, hr, hn⟩))
  · exact Or.inl (Or.inr ⟨r, hr, hn⟩)
  · exact Or.inr ⟨s, hs, hn⟩

end Schema.Entity.Named

def Compile.Form.isComparison : Compile.Form → Bool
  | .compare _ => true
  | _ => false

namespace Query

mutual
inductive Filter.Each (P : Condition → Prop) : Filter → Prop where
  | mk (conditions : ∀ c ∈ f.conditions, P c) (filters : ∀ g ∈ f.filters, Filter.Each P g)
      (links : ∀ l ∈ f.links, Link.Each P l) : Filter.Each P f
inductive Link.Each (P : Condition → Prop) : Link → Prop where
  | mk (filters : ∀ f ∈ l.filters, Filter.Each P f) (links : ∀ m ∈ l.links, Link.Each P m) :
      Link.Each P l
end

structure Entity.Each (P : Condition → Prop) (e : Entity) : Prop where
  filters : ∀ f ∈ e.filters, f.Each P
  links : ∀ l ∈ e.links, l.Each P

def Condition.comparedColumn? (c : Condition) : Option String :=
  if (Compile.Form.ofOperator c.operator).isComparison && c.value.isNone then c.valueOf else none

def Condition.Keeps (L : Lexicon) (c : Condition) : Prop :=
  ∀ n, c.comparedColumn? = some n → L.column n

def Column.title? (c : Column) : Option String :=
  if c.groupBy || c.aggregate.isNone then none else c.aliasName

/-- The columns that conditions compare with are in the lexicon, and so are the aliases of
aggregates if the query has any. -/
structure Fetch.Keeps (L : Lexicon) (fetch : Fetch) : Prop where
  columns (root : Entity) (h : fetch.entity = some root) :
    root.Each (Condition.Keeps L)
  titles (root : Entity) (h : fetch.entity = some root) (summary : fetch.aggregate = true)
    (c : Column) (hc : c ∈ root.selection.columns) (n : String) (hn : c.title? = some n) :
    L.title n

theorem Condition.comparedColumn?_invert {c c' : Condition} (h : c.invert = .ok c') :
    c'.comparedColumn? = c.comparedColumn? := by
  obtain ⟨o, ho, rfl⟩ := Condition.invert_eq_ok_iff.mp h
  have same : (Compile.Form.ofOperator o).isComparison =
      (Compile.Form.ofOperator c.operator).isComparison := by
    cases hc : c.operator <;> rw [hc] at ho <;> cases ho <;> rfl
  rw [comparedColumn?, comparedColumn?, same]

mutual
theorem Filter.Each.mono {P Q : Condition → Prop} (hPQ : ∀ c, P c → Q c) :
    ∀ {f : Filter}, f.Each P → f.Each Q
  | _, .mk conditions filters links =>
    .mk (fun c hc => hPQ c (conditions c hc)) (fun g hg => (filters g hg).mono hPQ)
      fun l hl => (links l hl).mono hPQ
theorem Link.Each.mono {P Q : Condition → Prop} (hPQ : ∀ c, P c → Q c) :
    ∀ {l : Link}, l.Each P → l.Each Q
  | _, .mk filters links =>
    .mk (fun f hf => (filters f hf).mono hPQ) fun m hm => (links m hm).mono hPQ
end

theorem Entity.Each.mono {P Q : Condition → Prop} (hPQ : ∀ c, P c → Q c) {e : Entity}
    (h : e.Each P) : e.Each Q :=
  ⟨fun f hf => (h.filters f hf).mono hPQ, fun l hl => (h.links l hl).mono hPQ⟩

theorem Link.Each.invert {P : Condition → Prop} {l l' : Link} (h : l.Each P)
    (hi : l.invert = .ok l') : l'.Each P := by
  obtain ⟨quantifier, negated, _, rfl⟩ := Link.invert_eq_ok_iff.mp hi
  cases h with
  | mk filters links => exact .mk filters links

/-- A property that inverting a condition keeps, inverting filters keeps. -/
theorem Filter.Each.invertAll {P : Condition → Prop}
    (hP : ∀ c c', P c → c.invert = .ok c' → P c') {fs gs : List Filter}
    (h : ∀ f ∈ fs, f.Each P) (hi : Filter.invertAll fs = .ok gs) : ∀ g ∈ gs, g.Each P := by
  match fs with
  | [] =>
    cases hi
    exact List.forall_mem_nil _
  | ⟨connective, conditions, filters, links⟩ :: fs =>
    obtain ⟨g, gs, rfl, hg, hs⟩ := Filter.invertAll_cons_eq_ok_iff.mp hi
    obtain ⟨conditions', filters', links', rfl, hc, hl, hf⟩ := Filter.invert_eq_ok_iff.mp hg
    obtain ⟨hfirst, hrest⟩ := List.forall_mem_cons.mp h
    cases hfirst with
    | mk each nested related =>
      refine List.forall_mem_cons.mpr ⟨.mk ?_ (Filter.Each.invertAll hP nested hf) ?_,
        Filter.Each.invertAll hP hrest hs⟩
      · intro c' hc'
        obtain ⟨c, hm, hi⟩ := exists_of_forall₂_mem hc.flip hc'
        exact hP c c' (each c hm) hi
      · intro l' hl'
        obtain ⟨l, hm, hi⟩ := exists_of_forall₂_mem hl.flip hl'
        exact (related l hm).invert hi
termination_by Filter.sizes fs
decreasing_by
  all_goals simp only [Filter.sizes, Filter.size]; omega

end Query

namespace OData

def Path.Spelled (L : Lexicon) (scope : List String) (path : Path) : Prop :=
  ∀ segment ∈ path, L.name segment ∨ segment ∈ scope

structure Property.Spelled (L : Lexicon) (scope : List String) (p : Property) : Prop where
  path : p.path.Spelled L scope
  name : L.name p.name

def Operand.Spelled (L : Lexicon) : Operand → Prop
  | literal text => Literal.IsWritten text
  | column name => L.column name

def Arguments.Spelled : Arguments → Prop
  | none => True
  | one value => Literal.IsWritten value
  | two first second => Literal.IsWritten first ∧ Literal.IsWritten second
  | many values => ∀ value ∈ values, Literal.IsWritten value

mutual
/-- All that the predicate writes is spelled by the lexicon, with the range variables around it in
scope. -/
inductive Predicate.Spelled (L : Lexicon) : List String → Predicate → Prop where
  | compare (property : p.Spelled L scope) (operand : o.Spelled L) :
      Predicate.Spelled L scope (.compare p comparison o)
  | isNull (property : p.Spelled L scope) : Predicate.Spelled L scope (.isNull p negated)
  | test (segments : Path.Spelled L scope path) (name : L.name column) :
      Predicate.Spelled L scope (.test negated test path column text)
  | call (segments : Path.Spelled L scope path) (word : IsIdentifier function)
      (name : L.name column) (values : Arguments.Spelled arguments) :
      Predicate.Spelled L scope (.call path function column arguments)
  | related {range : String} (segments : Path.Spelled L scope path) (name : L.name collection)
      (fits : IsVariable range.toList) (inside : ∀ g ∈ body, Group.Spelled L (range :: scope) g) :
      Predicate.Spelled L scope (.related negated path collection quantifier range body)
inductive Group.Spelled (L : Lexicon) : List String → Group → Prop where
  | mk (predicates : ∀ p ∈ g.predicates, Predicate.Spelled L scope p)
      (groups : ∀ h ∈ g.groups, Group.Spelled L scope h) : Group.Spelled L scope g
end

inductive Expand.Spelled (L : Lexicon) : Expand → Prop where
  | mk (property : L.name e.property) (select : ∀ n ∈ e.select, L.name n)
      (expand : ∀ inside ∈ e.expand, Expand.Spelled L inside)
      (filter : ∀ g ∈ e.filter, Group.Spelled L [] g) : Expand.Spelled L e

def Aggregates (L : Lexicon) (text : String) : Prop :=
  ∃ aggregate property title, text = Compile.aggregation aggregate property title ∧
    L.name property ∧ L.title title

structure Request.Spelled (L : Lexicon) (r : Request) : Prop where
  target : r.target.Spelled L
  orderBy (o : Ordering) (ho : o ∈ r.orderBy) : L.name o.property
  groups (g : String) (hg : g ∈ r.groups) : L.name g
  aggregates (a : String) (ha : a ∈ r.aggregates) : Aggregates L a

end OData

namespace Compile
open Query OData

variable {t : Snapshot} {root : Query.Entity} {L : Lexicon}

theorem mem_of_findAttribute {e : Schema.Entity} {name : String} {attr : Schema.Attribute}
    (h : e.findAttribute? name = some attr) : attr ∈ e.attributes ∧ attr.name = name :=
  ⟨List.mem_of_find?_eq_some h, by simpa using List.find?_some h⟩

/-- The property of an attribute with a name from the lexicon has such a name as well. -/
theorem name_property {attr : Schema.Attribute} (h : L.name attr.name) : L.name attr.property := by
  unfold Schema.Attribute.property
  split
  · exact L.lookup _ h
  · exact h

/-- Every way from one entity to another goes by the name of a navigation property. -/
theorem name_of_resolves {P : String → Prop} (named : t.Named P) {parent : String} {link : Link}
    {n : Navigation} (h : Resolves t parent link n) : P n.property := by
  obtain ⟨record, hr, hn⟩ := h.navigation
  exact (named parent record hr).navigations hn

theorem spelled_append {scope : List String} {path : Path} {name : String}
    (hp : path.Spelled L scope) (hn : L.name name) : Path.Spelled L scope (path ++ [name]) := by
  intro segment hs
  rcases List.mem_append.mp hs with hs | hs
  · exact hp segment hs
  · rw [List.mem_singleton.mp hs]
    exact Or.inl hn

/-- A range variable is spelled where it is in scope. -/
theorem spelled_range {scope : List String} {range : String} :
    Path.Spelled L (range :: scope) [range] := by
  intro segment hs
  exact Or.inr (List.mem_singleton.mp hs ▸ List.mem_cons_self)

theorem spelled_of_subject (named : t.Named L.name) {scope : List String} {site place : Site}
    {name : Option String} {v v' : Variables} (hp : site.path.Spelled L scope)
    (h : Gives t (subject root site name) v place v') : place.path.Spelled L scope := by
  cases name with
  | none =>
    cases (gives_pure.mp h).1
    exact hp
  | some name =>
    obtain ⟨goal, trail, _⟩ := trail_of_subject h
    intro segment hs
    exact Or.inl (trail.forall_mem (fun _ _ _ hn => name_of_resolves named hn) segment hs)

theorem isWritten_of_literal {attr : Schema.Attribute} {value text : String} {v v' : Variables}
    (h : Gives t (literal attr value) v text v') : Literal.IsWritten text := by
  unfold literal at h
  split at h
  · obtain ⟨record, _, _, h⟩ := gives_bind.mp h
    cases (gives_pure.mp h).1
    exact Or.inl ⟨record.name, rfl⟩
  · exact Literal.isWritten_of_format (gives_ofExcept.mp h).1

theorem isWritten_of_formatted {kind : LiteralKind} {value text : String} {v v' : Variables}
    (h : Gives t (formatted kind value) v text v') : Literal.IsWritten text :=
  Literal.isWritten_of_format (gives_ofExcept.mp h).1

theorem isWritten_of_mapM {kind : LiteralKind} {values texts : List String} {v v' : Variables}
    (h : Gives t (values.mapM (formatted kind)) v texts v') :
    ∀ text ∈ texts, Literal.IsWritten text := by
  induction values generalizing v v' texts with
  | nil =>
    cases (gives_pure.mp h).1
    exact List.forall_mem_nil _
  | cons value values ih =>
    rw [List.mapM_cons] at h
    obtain ⟨text, _, ht, h⟩ := gives_bind.mp h
    obtain ⟨rest, _, hr, h⟩ := gives_bind.mp h
    cases (gives_pure.mp h).1
    exact List.forall_mem_cons.mpr ⟨isWritten_of_formatted ht, ih hr⟩

theorem spelled_of_operand {attr : Schema.Attribute} {c : Condition} {comparison : Comparison}
    {o : Operand} {v v' : Variables} (form : Form.ofOperator c.operator = .compare comparison)
    (hc : c.Keeps L)
    (h : Gives t (operand attr c) v o v') : o.Spelled L := by
  unfold operand at h
  split at h
  · rename_i column hv hn
    cases (gives_pure.mp h).1
    exact hc column (by simp [Condition.comparedColumn?, form, Form.isComparison, hv, hn])
  · obtain ⟨value, _, _, h⟩ := gives_bind.mp h
    obtain ⟨text, _, ht, h⟩ := gives_bind.mp h
    cases (gives_pure.mp h).1
    exact isWritten_of_literal ht

theorem spelled_of_arguments {c : Condition} {arity : Arity} {a : Arguments} {v v' : Variables}
    (h : Gives t (arguments c arity) v a v') : a.Spelled := by
  cases arity with
  | none =>
    cases (gives_pure.mp h).1
    trivial
  | one kind =>
    obtain ⟨value, _, _, h⟩ := gives_bind.mp h
    obtain ⟨text, _, ht, h⟩ := gives_bind.mp h
    cases (gives_pure.mp h).1
    exact isWritten_of_formatted ht
  | two kind =>
    rw [arguments] at h
    split at h
    · obtain ⟨first, _, hf, h⟩ := gives_bind.mp h
      obtain ⟨second, _, hs, h⟩ := gives_bind.mp h
      cases (gives_pure.mp h).1
      exact ⟨isWritten_of_formatted hf, isWritten_of_formatted hs⟩
    · exact absurd h gives_reject
  | many kind =>
    obtain ⟨values, _, _, h⟩ := gives_bind.mp (gives_ite_bind.mp h)
    obtain ⟨texts, _, ht, h⟩ := gives_bind.mp h
    cases (gives_pure.mp h).1
    exact isWritten_of_mapM ht

theorem isIdentifier_of_form {o : Operator} {function : String} {arity : Arity}
    (h : Form.ofOperator o = .call function arity) : IsIdentifier function := by
  cases o <;> cases h <;> decide

theorem spelled_of_like {attr : Schema.Attribute} {scope : List String} {path : Path}
    {property : Property} {negated : Bool} {value : String} {p : Predicate} {v v' : Variables}
    (ha : L.name attr.name) (hp : path.Spelled L scope) (hn : property.Spelled L scope)
    (h : Gives t (likePredicate attr path property negated value) v p v') : p.Spelled L scope := by
  unfold likePredicate at h
  split at h
  · exact absurd h gives_reject
  · split at h
    · obtain ⟨text, _, ht, h⟩ := gives_bind.mp h
      cases (gives_pure.mp h).1
      exact .compare hn (isWritten_of_literal ht)
    all_goals
      cases (gives_pure.mp h).1
      exact .test hp ha

theorem spelled_of_predicate {attr : Schema.Attribute} {scope : List String} {path : Path}
    {c : Condition} {p : Predicate} {v v' : Variables} (ha : L.name attr.name)
    (hp : path.Spelled L scope) (hc : c.Keeps L)
    (h : Gives t (predicate attr path c) v p v') : p.Spelled L scope := by
  have hn : Property.Spelled L scope ⟨path, attr.property, attr.isManaged⟩ :=
    ⟨hp, name_property ha⟩
  unfold predicate at h
  dsimp only at h
  split at h
  · rename_i comparison form
    obtain ⟨o, _, ho, h⟩ := gives_bind.mp h
    cases (gives_pure.mp h).1
    exact .compare hn (spelled_of_operand form hc ho)
  · cases (gives_pure.mp h).1
    exact .isNull hn
  · obtain ⟨value, _, _, h⟩ := gives_bind.mp h
    exact spelled_of_like ha hp hn h
  · obtain ⟨value, _, _, h⟩ := gives_bind.mp h
    cases (gives_pure.mp h).1
    exact .test hp ha
  · rename_i function arity form
    obtain ⟨a, _, harg, h⟩ := gives_bind.mp h
    cases (gives_pure.mp h).1
    exact .call hp (isIdentifier_of_form form) ha (spelled_of_arguments harg)

theorem Renders.spelled (named : t.Named L.name) {scope : List String} {site : Site}
    {c : Condition} {p : Predicate} (hp : site.path.Spelled L scope)
    (hc : c.Keeps L) (h : Renders t root site c p) :
    p.Spelled L scope := by
  obtain ⟨place, _, hs, h⟩ := gives_bind.mp (h {})
  have hplace := spelled_of_subject named hp hs
  split at h
  · exact absurd h gives_reject
  · obtain ⟨record, _, hb, h⟩ := gives_bind.mp h
    obtain ⟨hr, rfl⟩ := gives_entity.mp hb
    split at h
    · rename_i attr ha
      have hm := (mem_of_findAttribute ha).1
      exact spelled_of_predicate ((named _ _ hr).attributes hm) hplace hc h
    · exact absurd h gives_reject

theorem each_nonEmpty {P : Condition → Prop} {fs : List Filter} (h : ∀ f ∈ fs, f.Each P) :
    ∀ f ∈ Filter.nonEmpty fs, f.Each P :=
  fun f hf => h f (List.mem_filter.mp hf).1

theorem each_reading {negated : Bool} {fs gs : List Filter}
    (h : ∀ f ∈ fs, f.Each (Condition.Keeps L))
    (hr : Filter.reading negated fs = .ok gs) : ∀ g ∈ gs, g.Each (Condition.Keeps L) := by
  cases negated with
  | false =>
    cases hr
    exact h
  | true =>
    refine Filter.Each.invertAll (fun c c' hc hi => ?_) h hr
    rw [Condition.Keeps, Condition.comparedColumn?_invert hi]
    exact hc

theorem each_target (route : Route) {link : Link} {P : Condition → Prop} (h : link.Each P) :
    (target route link).Each P := by
  unfold target
  split
  · rename_i next hl
    cases h with
    | mk _ links => exact links next (hl ▸ List.mem_singleton_self next)
  · exact h

/-- Range variables are numbered. -/
theorem isVariable_numbered {letter : Char} (h : letter = 'x' ∨ letter = 'o') (n : Nat) :
    IsVariable (letter :: Number.digits n) :=
  ⟨letter, _, rfl, h, Nat.toDigits_ne_nil, fun _ hd =>
    Nat.isDigit_of_mem_toDigits (by decide) (by decide) hd⟩

theorem toList_lambda (v : Variables) :
    v.lambda.toList = 'x' :: Number.digits (v.lambdas + 1) := by
  rw [Variables.lambda, String.toList_append]
  exact congrArg ('x' :: ·) String.toList_ofList

theorem toList_join (v : Variables) : v.join.toList = 'o' :: Number.digits (v.joins + 1) := by
  rw [Variables.join, String.toList_append]
  exact congrArg ('o' :: ·) String.toList_ofList

mutual
theorem GroupsOf.spelled (named : t.Named L.name) {scope : List String} {site : Site}
    {v v' : Variables} {fs : List Filter} {gs : List Group} (hp : site.path.Spelled L scope)
    (hc : ∀ f ∈ fs, f.Each (Condition.Keeps L)) (h : GroupsOf t root site v fs gs v') :
    ∀ g ∈ gs, g.Spelled L scope := by
  match h with
  | .nil => exact List.forall_mem_nil _
  | .cons own related nested rest =>
    obtain ⟨hf, hrest⟩ := List.forall_mem_cons.mp hc
    cases hf with
    | mk conditions filters links =>
      refine List.forall_mem_cons.mpr ⟨.mk ?_ (GroupsOf.spelled named hp filters nested),
        GroupsOf.spelled named hp hrest rest⟩
      intro p hm
      rcases List.mem_append.mp hm with hm | hm
      · obtain ⟨c, hc, hr⟩ := exists_of_forall₂_mem own.flip hm
        exact Renders.spelled named hp (conditions c hc) hr
      · exact RelatedOf.spelled named hp links related p hm
theorem RelatedOf.spelled (named : t.Named L.name) {scope : List String} {site : Site}
    {v v' : Variables} {ls : List Link} {ps : List Predicate} (hp : site.path.Spelled L scope)
    (hc : ∀ l ∈ ls, l.Each (Condition.Keeps L)) (h : RelatedOf t root site v ls ps v') :
    ∀ p ∈ ps, p.Spelled L scope := by
  match h with
  | .nil => exact List.forall_mem_nil _
  | .cons kind resolves reading body rest =>
    obtain ⟨hl, hrest⟩ := List.forall_mem_cons.mp hc
    cases each_target _ hl with
    | mk filters links =>
      refine List.forall_mem_cons.mpr ⟨.related hp (name_of_resolves named resolves)
        (toList_lambda v ▸ isVariable_numbered (Or.inl rfl) _) ?_, RelatedOf.spelled named hp hrest rest⟩
      exact GroupsOf.spelled named spelled_range (each_nonEmpty (each_reading filters reading)) body
end

theorem spelled_present {scope : List String} {path : Path} {key : String}
    (hp : path.Spelled L scope) (hk : L.name key) : (present path key).Spelled L scope := by
  refine .mk (List.forall_mem_singleton.mpr (.isNull ⟨hp, hk⟩)) ?_
  exact List.forall_mem_nil _

theorem spelled_orPresent {scope : List String} {gs : List Group} {path : Path} {key : String}
    (hg : ∀ g ∈ gs, g.Spelled L scope) (hp : path.Spelled L scope) (hk : L.name key) :
    ∀ g ∈ orPresent gs path key, g.Spelled L scope := by
  unfold orPresent
  split
  · exact hg
  · exact List.forall_mem_singleton.mpr (spelled_present hp hk)

theorem JoinsOf.spelled (named : t.Named L.name) {scope : List String} {parent : String}
    {path : Path} {v v' : Variables} {ls : List Link} {gs : List Group}
    (hp : path.Spelled L scope) (hc : ∀ l ∈ ls, l.Each (Condition.Keeps L))
    (h : JoinsOf t root parent path v ls gs v') : ∀ g ∈ gs, g.Spelled L scope := by
  induction h generalizing scope with
  | nil => exact List.forall_mem_nil _
  | other kind rest ih => exact ih hp (List.forall_mem_cons.mp hc).2
  | @toMany _ _ n _ _ _ _ _ _ _ _ _ v kind resolves many record own nested rest ih₁ ih₂ =>
    obtain ⟨hl, hrest⟩ := List.forall_mem_cons.mp hc
    cases each_target n.route hl with
    | mk filters links =>
      have range : Path.Spelled L (v.join :: scope) [v.join] := spelled_range
      have hown := own.spelled named range (each_nonEmpty filters)
      have hkey := (named _ _ record).primaryKey
      refine List.forall_mem_cons.mpr ⟨.mk (List.forall_mem_singleton.mpr ?_) ?_, ih₂ hp hrest⟩
      · refine .related hp (name_of_resolves named resolves)
          (toList_join v ▸ isVariable_numbered (Or.inr rfl) _) ?_
        exact List.forall_mem_append.mpr ⟨spelled_orPresent hown range hkey, ih₁ range links⟩
      · exact List.forall_mem_nil _
  | @toOne _ _ n _ _ _ _ _ _ _ _ _ _ kind resolves one record own reach nested rest ih₁ ih₂ =>
    obtain ⟨hl, hrest⟩ := List.forall_mem_cons.mp hc
    cases each_target n.route hl with
    | mk filters links =>
      have inner := spelled_append hp (name_of_resolves named resolves)
      have hown := own.spelled named inner (each_nonEmpty filters)
      have hkey := (named _ _ record).primaryKey
      exact List.forall_mem_append.mpr ⟨List.forall_mem_append.mpr
        ⟨spelled_orPresent hown inner hkey, ih₁ inner links⟩, ih₂ hp hrest⟩

theorem name_of_columnProperty {entityName : String} {record : Schema.Entity}
    (hr : record.Named L.name) {column property : String}
    (h : columnProperty entityName record column = .ok property) :
    L.name column ∧ L.name property := by
  unfold columnProperty at h
  split at h
  · rename_i attr ha
    obtain ⟨hm, rfl⟩ := mem_of_findAttribute ha
    cases h
    have hn := hr.attributes hm
    exact ⟨hn, name_property hn⟩
  · cases h

theorem Selects.named (named : t.Named L.name) {entityName : String} {selection : Selection}
    {columns : List String} (h : Selects t entityName selection columns) :
    ∀ n ∈ columns, L.name n := by
  have h := h {}
  unfold select at h
  split at h
  · cases (gives_pure.mp h).1
    exact List.forall_mem_nil _
  · obtain ⟨record, _, hr, h⟩ := gives_bind.mp h
    have hr := named _ _ (gives_entity.mp hr).1
    intro n hn
    obtain ⟨c, _, hc⟩ :=
      exists_of_forall₂_mem (mapM_eq_ok_iff.mp (gives_ofExcept.mp h).1).flip hn
    exact (name_of_columnProperty hr hc).2

theorem InlineOf.spelled (named : t.Named L.name) {link : Link} {n : Navigation}
    {v v' : Variables} {gs : List Group} (hc : link.Each (Condition.Keeps L))
    (h : InlineOf t root link n v gs v') : ∀ g ∈ gs, g.Spelled L [] := by
  unfold InlineOf at h
  split at h
  · cases each_target n.route hc with
    | mk filters links =>
      have bare : Path.Spelled L [] [] := List.forall_mem_nil _
      exact h.spelled named bare (each_nonEmpty filters)
  · rw [h.1]
    exact List.forall_mem_nil _

theorem ExpandsOf.spelled (named : t.Named L.name) {parent : String} {v v' : Variables}
    {ls : List Link} {es : List Expand} (hc : ∀ l ∈ ls, l.Each (Condition.Keeps L))
    (h : ExpandsOf t root parent v ls es v') : ∀ e ∈ es, e.Spelled L := by
  induction h with
  | nil => exact List.forall_mem_nil _
  | skip kind bare rest ih => exact ih (List.forall_mem_cons.mp hc).2
  | @expand _ _ n _ _ _ _ _ _ _ _ _ kind content resolves _ selected filter nested rest ih₁ ih₂ =>
    obtain ⟨hl, hrest⟩ := List.forall_mem_cons.mp hc
    cases each_target n.route hl with
    | mk filters links =>
      exact List.forall_mem_cons.mpr ⟨.mk (name_of_resolves named resolves) (selected.named named)
        (ih₁ links) (filter.spelled named hl), ih₂ hrest⟩

theorem ok_of_bind {x : Except ε α} {f : α → Except ε β} {b : β} (h : x >>= f = .ok b) :
    ∃ a, x = .ok a ∧ f a = .ok b := by
  cases x with
  | error cause => cases h
  | ok a => exact ⟨a, rfl, h⟩

structure Summary.Spelled (L : Lexicon) (s : Summary) : Prop where
  groups (g : String) (hg : g ∈ s.groups) : L.name g
  aggregates (a : String) (ha : a ∈ s.aggregates) : Aggregates L a

theorem Summary.Spelled.add {s : Summary} (h : s.Spelled L) {column : Column} {property : String}
    (hn : L.name column.name) (hp : L.name property) (ht : ∀ n, column.title? = some n → L.title n) :
    (s.add column property).Spelled L := by
  unfold Summary.add
  split
  · refine ⟨fun g hg => ?_, h.aggregates⟩
    rcases List.mem_append.mp hg with hg | hg
    · exact h.groups g hg
    · exact List.mem_singleton.mp hg ▸ hp
  · rename_i ungrouped
    split
    · rename_i aggregate ha
      refine ⟨h.groups, fun a hm => ?_⟩
      rcases List.mem_append.mp hm with hm | hm
      · exact h.aggregates a hm
      · refine ⟨aggregate, property, _, List.mem_singleton.mp hm, hp, ?_⟩
        cases hc : column.aliasName with
        | none => exact L.entitled _ hn
        | some n => exact ht n (by simp [Column.title?, ungrouped, ha, hc])
    · exact h

theorem Summary.Spelled.foldlM {record : Schema.Entity} (hr : record.Named L.name)
    {columns : List Column} {s s' : Summary} (hs : s.Spelled L)
    (ht : ∀ c ∈ columns, ∀ n, c.title? = some n → L.title n)
    (h : columns.foldlM (fun s column => do
      return s.add column (← columnProperty root.name record column.name)) s = .ok s') :
    s'.Spelled L := by
  induction columns generalizing s with
  | nil =>
    cases h
    exact hs
  | cons column columns ih =>
    obtain ⟨hc, hrest⟩ := List.forall_mem_cons.mp ht
    rw [List.foldlM_cons] at h
    obtain ⟨s₁, hs₁, h⟩ := ok_of_bind h
    obtain ⟨property, hp, hs₁⟩ := ok_of_bind hs₁
    cases hs₁
    obtain ⟨hn, hp⟩ := name_of_columnProperty hr hp
    exact ih (hs.add hn hp hc) hrest h

theorem Summary.spelled {record : Schema.Entity} (hr : record.Named L.name) {s : Summary}
    (ht : ∀ c ∈ root.selection.columns, ∀ n, c.title? = some n → L.title n)
    (h : summary root record = .ok s) : s.Spelled L := by
  have start : Summary.Spelled L {} :=
    ⟨List.forall_mem_nil _, List.forall_mem_nil _⟩
  unfold summary at h
  obtain ⟨s', hf, h⟩ := ok_of_bind h
  split at h
  · cases h
  · cases h
    exact start.foldlM hr ht hf

theorem name_of_orderings {record : Schema.Entity} (hr : record.Named L.name)
    {os : List OData.Ordering} (h : orderings root record = .ok os) :
    ∀ o ∈ os, L.name o.property := by
  intro o ho
  obtain ⟨order, _, hm⟩ := exists_of_forall₂_mem (mapM_eq_ok_iff.mp h).flip ho
  split at hm
  · cases hm
  · obtain ⟨property, hp, hm⟩ := ok_of_bind hm
    cases hm
    exact (name_of_columnProperty hr hp).2

/-- What is returned is spelled by the lexicon, before there are filters and expanded links. -/
theorem spelled_outline (named : t.Named L.name) {fetch : Fetch} {record : Schema.Entity}
    {collection : String} {o : Request} (hr : record.Named L.name) (hc : L.name collection)
    (ht : fetch.aggregate = true →
      ∀ c ∈ root.selection.columns, ∀ n, c.title? = some n → L.title n)
    (h : ∀ v, Gives t (outline fetch root record collection) v o v) : o.Spelled L := by
  have h := h {}
  unfold outline at h
  split at h
  · rename_i aggregate
    obtain ⟨s, _, hs, h⟩ := gives_bind.mp h
    have hs := Summary.spelled hr (ht aggregate) (gives_ofExcept.mp hs).1
    cases (gives_pure.mp h).1
    refine ⟨.mk hc ?_ ?_ ?_, ?_, hs.groups, hs.aggregates⟩
    all_goals exact List.forall_mem_nil _
  · obtain ⟨selected, _, hs, h⟩ := gives_bind.mp h
    obtain ⟨orderBy, _, ho, h⟩ := gives_bind.mp h
    have selects : Selects t root.name root.selection selected := (constant_select _ _ hs).2
    cases (gives_pure.mp h).1
    refine ⟨.mk hc (selects.named named) ?_ ?_, name_of_orderings hr (gives_ofExcept.mp ho).1,
      ?_, ?_⟩
    all_goals exact List.forall_mem_nil _

/-- All that a request writes is spelled by a lexicon with the names of the schema and the texts
that the query has written as they stand. -/
theorem RequestOf.spelled (named : t.Named L.name) {fetch : Fetch} {r : Request}
    (keeps : fetch.Keeps L) (h : RequestOf t fetch root r) : r.Spelled L := by
  obtain ⟨record, collection, o, filter, v₁, expand, v₂, joins, v₃, hr, hc, ho, own, expanded,
    joined, rfl⟩ := h.parts
  have hr := named _ _ hr
  have each := keeps.columns root h.entity_eq
  have bare : Path.Spelled L [] [] := List.forall_mem_nil _
  obtain ⟨target, orderBy, groups, aggregates⟩ :=
    spelled_outline named hr (hr.collection hc) (keeps.titles root h.entity_eq) ho
  cases target with
  | mk property select _ _ =>
    refine ⟨.mk property select (expanded.spelled named each.links) ?_, orderBy, groups,
      aggregates⟩
    exact List.forall_mem_append.mpr ⟨own.spelled named bare (each_nonEmpty each.filters),
      joined.spelled named bare each.links⟩

end Compile

end FetchOData
