import FetchOData.Proofs.JoinRules
import FetchOData.Proofs.Meaning

namespace FetchOData

namespace OData

/-- Rows with their properties. A property that has no value is null, and a navigation property to
one row may lead nowhere. -/
structure Database (Row Value : Type) where
  value : Row → String → Option Value
  /-- The value inside a managed property. -/
  managed : Row → String → Option Value
  single : Row → String → Option Row
  many : Row → String → List Row
  literal : String → Value
  compare : Comparison → Value → Value → Bool
  test : TextTest → Value → String → Bool
  /-- What a query function answers that is bound to a row. -/
  call : Row → String → String → Arguments → Bool

namespace Database

variable (db : Database Row Value)

def follow : Row → Path → Option Row
  | row, [] => some row
  | row, name :: path => (db.single row name).bind (follow · path)

/-- The row that a path leads to, from the row of a range variable or else from the given one. -/
def reach (row : Row) (scope : Scope Row) : Path → Option Row
  | [] => some row
  | name :: path =>
    match scope name with
    | some start => db.follow start path
    | none => db.follow row (name :: path)

def read (row : Row) (scope : Scope Row) (p : Property) : Option Value :=
  (db.reach row scope p.path).bind fun found =>
    if p.managed then db.managed found p.name else db.value found p.name

/-- Null is equal to itself and not equal to any value, and there is no order between them. -/
def compareValues (comparison : Comparison) : Option Value → Option Value → Bool
  | some a, some b => db.compare comparison a b
  | none, none => comparison == .eq
  | _, _ => comparison == .ne

/-- The right side of a comparison. A column is one of the row that the query is about. -/
def operand (row : Row) : Operand → Option Value
  | .literal text => some (db.literal text)
  | .column name => db.value row name

def atom (row : Row) (scope : Scope Row) : Predicate → Bool
  | .compare property comparison operand =>
    db.compareValues comparison (db.read row scope property) (db.operand row operand)
  | .isNull property negated => negated ^^ (db.read row scope property).isNone
  | .test negated test path column text =>
    negated ^^ (db.read row scope ⟨path, column, false⟩).any (db.test test · text)
  | .call path function column arguments =>
    (db.reach row scope path).any (db.call · function column arguments)
  | .verbatim _ | .related .. => false

def world (row : Row) : World Row where
  rows scope path collection := (db.reach row scope path).elim [] (db.many · collection)
  atom := db.atom row

/-- Nothing is behind a path that leads nowhere. -/
theorem follow_append_eq_none {row : Row} {path : Path} (h : db.follow row path = none)
    (rest : Path) : db.follow row (path ++ rest) = none := by
  induction path generalizing row with
  | nil => cases h
  | cons name path ih =>
    rw [List.cons_append, follow]
    rw [follow] at h
    cases hs : db.single row name with
    | none => rfl
    | some next =>
      rw [hs] at h
      exact ih h

theorem reach_append_eq_none {row : Row} {scope : Scope Row} {path : Path}
    (h : db.reach row scope path = none) (rest : Path) :
    db.reach row scope (path ++ rest) = none := by
  cases path with
  | nil => cases h
  | cons name path =>
    simp only [List.cons_append, reach] at h ⊢
    split at h
    · exact db.follow_append_eq_none h rest
    · exact db.follow_append_eq_none h rest

end Database

end OData

namespace Query

/-- What a condition says of a row that is not there, by which columns of the row that the query is
about are null. -/
def Condition.onMissing (isNull : String → Bool) (c : Condition) : Bool :=
  match Compile.Form.ofOperator c.operator with
  | .compare comparison =>
    match c.value, c.valueOf with
    | none, some column => comparison == (if isNull column then .eq else .ne)
    | _, _ => comparison == .ne
  | .isNull negated => !negated
  | .like negated | .test negated _ => negated
  | .call .. => false

def Link.onMissing (link : Link) : Bool :=
  match link.join.kind with
  | .related .any negated => negated
  | .related .all negated => !negated
  | _ => false

end Query

namespace Compile
open Query OData

variable {t : Snapshot} {root : Query.Entity} {db : Database Row Value} {row : Row}

/-- A condition on a row that is not there is as its operator has it. -/
theorem Shape.atom_missing {attr : Schema.Attribute} {path : Path} {c : Condition} {p : Predicate}
    {scope : Scope Row} (h : Shape attr path c p) (missing : db.reach row scope path = none) :
    db.atom row scope p = c.onMissing fun column => (db.value row column).isNone := by
  have hread (name : String) (managed : Bool) : db.read row scope ⟨path, name, managed⟩ = none := by
    rw [Database.read, missing]
    rfl
  cases h with
  | compareLiteral form given =>
    simp [Database.atom, hread, Database.operand, Database.compareValues, Condition.onMissing, form,
      given]
  | @compareColumn _ name form bare column =>
    simp only [Database.atom, hread, Database.operand, Condition.onMissing, form, bare, column]
    rcases Option.eq_none_or_eq_some (db.value row name) with hv | ⟨value, hv⟩
    · simp [hv, Database.compareValues]
    · simp [hv, Database.compareValues]
  | isNull form => simp [Database.atom, hread, Condition.onMissing, form]
  | @likeText negated form =>
    cases negated <;>
      simp [Database.atom, hread, Database.operand, Database.compareValues, Condition.onMissing,
        form]
  | likeTest form => simp [Database.atom, hread, Condition.onMissing, form]
  | test form => simp [Database.atom, hread, Condition.onMissing, form]
  | call form => simp [Database.atom, missing, Condition.onMissing, form]

/-- What a condition says of a row that is not there. One that names a link is about the row of that
link instead. -/
def onMissing (t : Snapshot) (root : Query.Entity) (db : Database Row Value) (row : Row)
    (c : Condition) : Bool :=
  if c.entityName.isSome then
    match (condition root ⟨root.name, []⟩ c {}).answer t with
    | .ok (p, _) => db.atom row .empty p
    | .error _ => false
  else c.onMissing fun column => (db.value row column).isNone

theorem Renders.atom_missing {site : Site} {c : Condition} {p : Predicate}
    (h : Renders t root site c p) (missing : db.reach row .empty site.path = none) :
    db.atom row .empty p = onMissing t root db row c := by
  unfold onMissing
  split
  · rename_i named
    obtain ⟨name, hn⟩ := Option.isSome_iff_exists.mp named
    have hs : condition root ⟨root.name, []⟩ c = condition root site c := by
      simp [condition, subject, hn]
    have ha : (condition root site c {}).answer t = .ok (p, {}) := h {}
    rw [hs, ha]
  · rename_i own
    have hn : c.entityName = none := by simpa using own
    obtain ⟨_, _, _, _, _, shape⟩ := h.own_shape hn
    exact shape.atom_missing missing

/-- A row that is not there has no related rows. -/
theorem RelatedOf.values_missing {site : Site} {v v' : Variables} {ls : List Link}
    {ps : List Predicate} (h : RelatedOf t root site v ls ps v')
    (missing : db.reach row .empty site.path = none) :
    Predicate.values (db.world row) true .empty ps = ls.map Link.onMissing := by
  induction ls generalizing v ps with
  | nil =>
    cases h
    rw [Predicate.values, List.map_nil]
  | cons link ls ih =>
    cases h with
    | @cons _ _ negated _ _ _ _ _ _ _ _ quantifier kind _ _ _ rest =>
      rw [Predicate.values_related, ih rest, List.map_cons]
      cases quantifier <;>
        simp [Database.world, missing, Quantifier.over, Link.onMissing, kind]

/-- What filters say of a row that is not there. -/
theorem GroupsOf.values_missing {site : Site} {v v' : Variables} {fs : List Filter}
    {gs : List Group} (h : GroupsOf t root site v fs gs v')
    (missing : db.reach row .empty site.path = none) :
    Group.values (db.world row) true .empty gs =
      Filter.values (onMissing t root db row) Link.onMissing fs :=
  h.values_eq (fun _ _ hp => hp.atom_missing missing) fun _ _ _ _ hr => hr.values_missing missing

/-- Filters that say something of a row that is not there, and pass it. -/
def PassMissing (t : Snapshot) (root : Query.Entity) (db : Database Row Value) (row : Row)
    (fs : List Filter) : Prop :=
  Filter.values (onMissing t root db row) Link.onMissing fs ≠ [] ∧
    ∀ value ∈ Filter.values (onMissing t root db row) Link.onMissing fs, value = true

inductive KeepMissing (t : Snapshot) (root : Query.Entity) (db : Database Row Value) (row : Row) :
    String → List Link → Prop where
  | nil : KeepMissing t root db row parent []
  | other (kind : link.join.kind ≠ .inner) (rest : KeepMissing t root db row parent links) :
      KeepMissing t root db row parent (link :: links)
  | toOne (kind : link.join.kind = .inner) (resolves : Resolves t parent link n)
      (one : n.route = .toOne) (passes : PassMissing t root db row (Filter.nonEmpty link.filters))
      (nested : KeepMissing t root db row link.name link.links)
      (rest : KeepMissing t root db row parent links) :
      KeepMissing t root db row parent (link :: links)

theorem present_missing {path : Path} {key : String} (missing : db.reach row .empty path = none) :
    (db.world row).holdsAll .empty [present path key] = false := by
  rw [present, World.holdsAll_single _ _ isNull_text_ne, World.holds, Predicate.value]
  · simp [Database.world, Database.atom, Database.read, missing]
  · simp

/-- A row that is not there passes the filters of a join only if they are written. -/
theorem GroupsOf.orPresent_missing {site : Site} {v v' : Variables} {fs : List Filter}
    {gs : List Group} {key : String} (h : GroupsOf t root site v fs gs v')
    (missing : db.reach row .empty site.path = none) :
    (db.world row).holdsAll .empty (orPresent gs site.path key) = true ↔
      PassMissing t root db row fs := by
  have hv := h.values_missing missing
  have hc := Group.isSome_conjunction? (db.world row) true .empty gs
  rw [hv] at hc
  unfold orPresent PassMissing
  split
  · rename_i written
    rw [written] at hc
    have hne : Filter.values (onMissing t root db row) Link.onMissing fs ≠ [] := by
      intro h
      simp [h] at hc
    rw [World.holdsAll, hv, List.all_eq_true]
    exact ⟨fun h => ⟨hne, h⟩, And.right⟩
  · rename_i bare
    have hn : Filter.values (onMissing t root db row) Link.onMissing fs = [] := by
      simpa [bare] using hc
    simp [present_missing missing, hn]

/-- Below a row that is not there, the conditions of inner joins hold only for links that keep
it. -/
theorem JoinsOf.holdsAll_missing {parent : String} {path : Path} {v v' : Variables}
    {ls : List Link} {gs : List Group} (h : JoinsOf t root parent path v ls gs v') :
    db.reach row .empty path = none →
      ((db.world row).holdsAll .empty gs = true ↔ KeepMissing t root db row parent ls) := by
  induction h with
  | nil =>
    intro _
    rw [World.holdsAll, Group.values]
    exact ⟨fun _ => .nil, fun _ => rfl⟩
  | other kind rest ih =>
    intro missing
    rw [ih missing]
    constructor
    · exact .other kind
    · intro h
      cases h with
      | other _ rest => exact rest
      | toOne inner => exact absurd inner kind
  | toMany kind resolves many record own nested rest _ _ =>
    intro missing
    constructor
    · intro h
      -- There are no rows behind the missing one, so none of them matches.
      rw [← List.singleton_append, World.holdsAll_append,
        World.holdsAll_single _ _ related_text_ne, World.holds_related] at h
      simp [Database.world, missing, Quantifier.over] at h
    · intro h
      cases h with
      | other other => exact absurd kind other
      | toOne _ resolves' one =>
        cases resolves.unique resolves'
        simp [Navigation.isCollection, one] at many
  | @toOne parent link n _ path _ _ _ _ _ _ _ _ kind resolves one record own reach nested rest
      ihNested ihRest =>
    intro missing
    have beyond := db.reach_append_eq_none missing [n.property]
    have route := Navigation.route_eq_toOne one
    rw [target_eq_of_toOne one] at own ihNested
    rw [World.holdsAll_append, World.holdsAll_append, Bool.and_eq_true, Bool.and_eq_true,
      own.orPresent_missing beyond, ihNested beyond, ihRest missing]
    constructor
    · rintro ⟨⟨passes, below⟩, others⟩
      exact .toOne kind resolves route passes below others
    · intro h
      cases h with
      | other other => exact absurd kind other
      | toOne _ _ _ passes below others => exact ⟨⟨passes, below⟩, others⟩

/-- A row with nothing at the other end of an inner join to one row is dropped, unless the filters
of the link are written and pass a row that is not there, and so do those of the inner links
below. -/
theorem inner_join_keeps_iff {link : Link} {n : Navigation} {v v' : Variables} {gs : List Group}
    (kind : link.join.kind = .inner) (resolves : Resolves t root.name link n)
    (one : n.route = .toOne) (h : Gives t (innerJoins root root.name [] [link]) v gs v')
    (nowhere : db.single row n.property = none) :
    (db.world row).holdsAll .empty gs = true ↔
      PassMissing t root db row (Filter.nonEmpty link.filters) ∧
        KeepMissing t root db row link.name link.links := by
  have missing : db.reach row .empty [n.property] = none := by
    simp [Database.reach, Scope.empty, Database.follow, nowhere]
  cases joinsOf_of_gives h with
  | other other => exact absurd kind other
  | toMany _ resolves' many =>
    cases resolves.unique resolves'
    simp [Navigation.isCollection, one] at many
  | toOne _ resolves' _ _ own _ nested rest =>
    cases resolves.unique resolves'
    cases rest
    rw [target_eq_self (by simp [one])] at own nested
    rw [List.append_nil, World.holdsAll_append, Bool.and_eq_true, own.orPresent_missing missing,
      nested.holdsAll_missing missing]

def namelessContact : Link :=
  { join := { entity := "contact", fromColumn := "contactid", toColumn := "primarycontactid" },
    filters := [{ conditions := [{ column := "firstname", operator := .isNull }] }] }

def bareRow : Database Unit Unit where
  value _ _ := none
  managed _ _ := none
  single _ _ := none
  many _ _ := []
  literal _ := ()
  compare _ _ _ := false
  test _ _ _ := false
  call _ _ _ _ := false

/-- An account without a primary contact is kept by an inner join to a contact without a name. -/
theorem inner_join_keeps_iff_namelessContact :
    Gives Catalog.sample.snapshot (innerJoins { name := "account" } "account" [] [namelessContact])
        {} [.single (.isNull ⟨["primarycontactid"], "firstname", false⟩ false)] {} ∧
      (bareRow.world ()).holdsAll .empty
        [.single (.isNull ⟨["primarycontactid"], "firstname", false⟩ false)] = true := by
  have h : Gives Catalog.sample.snapshot
      (innerJoins { name := "account" } "account" [] [namelessContact]) {}
      [.single (.isNull ⟨["primarycontactid"], "firstname", false⟩ false)] {} := by
    with_unfolding_all rfl
  have resolves : Resolves Catalog.sample.snapshot "account" namelessContact
      ⟨"primarycontactid", .toOne⟩ := by
    decide +kernel
  refine ⟨h, (inner_join_keeps_iff rfl resolves rfl h rfl).mpr ⟨?_, .nil⟩⟩
  unfold PassMissing
  decide +kernel

end Compile

end FetchOData
