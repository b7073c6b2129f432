import Mathlib.Data.List.Forall2
import FetchOData.Proofs.ConditionRules

namespace FetchOData

def IsFirst (P : α → Prop) (x : α) (xs : List α) : Prop :=
  P x ∧ ∃ before after, xs = before ++ x :: after ∧ ∀ y ∈ before, ¬ P y

theorem find?_eq_some_iff_isFirst {P : α → Prop} {p : α → Bool} (hp : ∀ x, p x = true ↔ P x)
    {x : α} {xs : List α} : xs.find? p = some x ↔ IsFirst P x xs := by
  rw [List.find?_eq_some_iff_append, IsFirst, hp]
  simp only [← hp, Bool.not_eq_true, Bool.not_eq_true']

theorem find?_eq_none_iff {P : α → Prop} {p : α → Bool} (hp : ∀ x, p x = true ↔ P x)
    {xs : List α} : xs.find? p = none ↔ ∀ x ∈ xs, ¬ P x := by
  rw [List.find?_eq_none]
  simp only [hp]

theorem exists_isFirst {P : α → Prop} {x : α} {xs : List α} (hx : x ∈ xs) (h : P x) :
    ∃ y ∈ xs, IsFirst P y xs := by
  classical
  have hp (y : α) : decide (P y) = true ↔ P y := decide_eq_true_iff
  cases hf : xs.find? fun y => decide (P y) with
  | none => exact absurd h ((find?_eq_none_iff hp).mp hf x hx)
  | some y => exact ⟨y, List.mem_of_find?_eq_some hf, (find?_eq_some_iff_isFirst hp).mp hf⟩

namespace Schema

def Association.exchanged (a : Association) : Association :=
  { a with first := a.second, second := a.first }

/-- The association is left as it is, or its sides, which can be told apart, are exchanged. -/
inductive Association.Turns (a : Association) : Association → Prop where
  | kept : Association.Turns a a
  | exchanged (differ : a.first.entity ≠ a.second.entity ∨
      a.first.intersectAttribute ≠ a.second.intersectAttribute) :
      Association.Turns a a.exchanged

theorem Association.Turns.intersectEntity_eq {a b : Association} (h : a.Turns b) :
    b.intersectEntity = a.intersectEntity := by
  cases h <;> rfl

end Schema

namespace Compile
open Query Schema

structure ReferredBy (parent : String) (join : Join) (r : Reference) : Prop where
  referenced : r.referencedEntity = parent
  referencedBy : r.referencedAttribute = some join.toColumn
  referencing : r.referencingEntity = join.entity
  referencingBy : r.referencingAttribute = join.fromColumn

structure RefersTo (parent : String) (join : Join) (r : Reference) : Prop where
  referencing : r.referencingEntity = parent
  referencingBy : r.referencingAttribute = join.toColumn
  referenced : r.referencedEntity = join.entity
  referencedBy : r.referencedAttribute = some join.fromColumn

/-- One of the associations that are kept in the link's entity, from the parent's side to that of
the nested link. -/
def Bridges (record : Schema.Entity) (parent : String) (link next : Link) (near far : Side) :
    Prop :=
  ∃ a ∈ record.manyToMany, a.intersectEntity = link.name ∧
    (near = a.first ∧ far = a.second ∨ near = a.second ∧ far = a.first) ∧
    Crosses parent link next near far

theorem leadsToMany_iff {parent : String} {join : Join} (r : Reference) :
    leadsToMany parent join r = true ↔ ReferredBy parent join r := by
  simp only [leadsToMany, Bool.and_eq_true, beq_iff_eq]
  constructor
  · rintro ⟨⟨⟨h₁, h₂⟩, h₃⟩, h₄⟩
    exact ⟨h₁, h₂, h₃, h₄⟩
  · rintro ⟨h₁, h₂, h₃, h₄⟩
    exact ⟨⟨⟨h₁, h₂⟩, h₃⟩, h₄⟩

theorem leadsToOne_iff {parent : String} {join : Join} (r : Reference) :
    leadsToOne parent join r = true ↔ RefersTo parent join r := by
  simp only [leadsToOne, Bool.and_eq_true, beq_iff_eq]
  constructor
  · rintro ⟨⟨⟨h₁, h₂⟩, h₃⟩, h₄⟩
    exact ⟨h₁, h₂, h₃, h₄⟩
  · rintro ⟨h₁, h₂, h₃, h₄⟩
    exact ⟨⟨⟨h₁, h₂⟩, h₃⟩, h₄⟩

def crossing? (parent : String) (link : Link) (sides : Side × Side) :
    Option (Except Unsupported Navigation) :=
  if sides.1.entity = parent ∧ sides.1.intersectAttribute = some link.join.fromColumn then
    match link.links with
    | [] => none
    | [next] =>
      if next.name = sides.2.entity ∧ sides.2.intersectAttribute = some next.join.toColumn then
        some (through parent link.join .across sides.1.navigation)
      else none
    | _ => some (.error (.manyToManyShape link.name))
  else none

/-- The first orientation that decides anything decides all. -/
theorem navigateAcross_eq (parent : String) (link : Link) (sides : List (Side × Side)) :
    navigateAcross parent link sides =
      (sides.findSome? (crossing? parent link)).getD (.error (unresolved parent link.join)) := by
  induction sides with
  | nil => rfl
  | cons side sides ih =>
    obtain ⟨near, far⟩ := side
    rw [navigateAcross, List.findSome?_cons, crossing?]
    simp only [Bool.and_eq_true, beq_iff_eq]
    rcases link.links with _ | ⟨next, _ | ⟨second, rest⟩⟩
    · simp only [ih, ite_self]
    · dsimp only
      split
      · split
        · rfl
        · exact ih
      · exact ih
    · dsimp only
      split
      · rfl
      · exact ih

theorem crossing?_of_single {parent : String} {link next : Link} (single : link.links = [next])
    {near far : Side} (h : Crosses parent link next near far) :
    crossing? parent link (near, far) =
      some (through parent link.join .across near.navigation) := by
  simp [crossing?, single, h.leaves, h.leavesBy, h.arrives, h.arrivesBy]

theorem crosses_of_crossing? {parent : String} {link next : Link} (single : link.links = [next])
    {near far : Side} {result : Except Unsupported Navigation}
    (h : crossing? parent link (near, far) = some result) : Crosses parent link next near far := by
  simp only [crossing?, single] at h
  split at h
  · rename_i leaves
    split at h
    · rename_i arrives
      exact ⟨leaves.1, leaves.2, single, arrives.1, arrives.2⟩
    · cases h
  · cases h

/-- Sides that can be told apart are crossed one way at most, and a link with too many nested links
is refused from either side. -/
theorem crossing?_comm {parent : String} {link : Link} {a : Association}
    (differ : a.first.entity ≠ a.second.entity ∨
      a.first.intersectAttribute ≠ a.second.intersectAttribute) :
    (crossing? parent link (a.first, a.second)).or (crossing? parent link (a.second, a.first)) =
      (crossing? parent link (a.second, a.first)).or
        (crossing? parent link (a.first, a.second)) := by
  cases hf : crossing? parent link (a.first, a.second) with
  | none => rw [Option.none_or, Option.or_none]
  | some result =>
    cases hs : crossing? parent link (a.second, a.first) with
    | none => rw [Option.none_or, Option.or_none]
    | some other =>
      -- Both ways are open only to the error that does not depend on the side.
      rcases hl : link.links with _ | ⟨next, _ | ⟨second, rest⟩⟩
      · simp [crossing?, hl] at hf
      · have hf := crosses_of_crossing? hl hf
        have hs := crosses_of_crossing? hl hs
        rcases differ with differ | differ
        · exact absurd (hf.leaves.trans hs.leaves.symm) differ
        · exact absurd (hf.leavesBy.trans hs.leavesBy.symm) differ
      · simp only [crossing?, hl, Option.ite_none_right_eq_some, Option.some.injEq] at hf hs
        rw [← hf.2, ← hs.2]

/-- Exchanging sides that can be told apart changes nothing. -/
theorem findSome?_crossing?_of_turns {parent : String} {link : Link} {as bs : List Association}
    (h : List.Forall₂ Association.Turns as bs) :
    (bs.flatMap Association.orientations).findSome? (crossing? parent link) =
      (as.flatMap Association.orientations).findSome? (crossing? parent link) := by
  induction h with
  | nil => rfl
  | @cons a b as bs turns _ ih =>
    rw [List.flatMap_cons, List.flatMap_cons, List.findSome?_append, List.findSome?_append, ih]
    congr 1
    cases turns with
    | kept => rfl
    | exchanged differ =>
      have two (a : Association) : a.orientations.findSome? (crossing? parent link) =
          (crossing? parent link (a.first, a.second)).or
            (crossing? parent link (a.second, a.first)) := by
        simp only [Association.orientations, List.findSome?_cons, List.findSome?_nil]
        cases crossing? parent link (a.first, a.second) <;>
          cases crossing? parent link (a.second, a.first) <;> rfl
      rw [two, two, crossing?_comm differ]
      rfl

def crossings (record : Schema.Entity) (link : Link) : List (Side × Side) :=
  (record.manyToMany.filter fun a => a.intersectEntity == link.name).flatMap
    Association.orientations

theorem bridges_iff {record : Schema.Entity} {parent : String} {link next : Link}
    {near far : Side} :
    Bridges record parent link next near far ↔
      (near, far) ∈ crossings record link ∧ Crosses parent link next near far := by
  simp only [Bridges, crossings, List.mem_flatMap, List.mem_filter, beq_iff_eq,
    Association.orientations, List.mem_cons, Prod.mk.injEq, List.not_mem_nil, or_false]
  constructor
  · rintro ⟨a, member, intersect, sides, crosses⟩
    exact ⟨⟨a, ⟨member, intersect⟩, sides⟩, crosses⟩
  · rintro ⟨⟨a, ⟨member, intersect⟩, sides⟩, crosses⟩
    exact ⟨a, member, intersect, sides, crosses⟩

section Navigate

variable {record : Schema.Entity} {parent : String} {link : Link}

theorem navigate_of_referredBy {r : Reference}
    (h : IsFirst (ReferredBy parent link.join) r record.oneToMany) :
    navigate record parent link = through parent link.join .toMany r.referencedNavigation := by
  rw [navigate, (find?_eq_some_iff_isFirst leadsToMany_iff).mpr h]

theorem navigate_of_refersTo {r : Reference}
    (none : ∀ r ∈ record.oneToMany, ¬ ReferredBy parent link.join r)
    (h : IsFirst (RefersTo parent link.join) r record.manyToOne) :
    navigate record parent link = through parent link.join .toOne r.referencingNavigation := by
  rw [navigate, (find?_eq_none_iff leadsToMany_iff).mpr none]
  dsimp only
  rw [(find?_eq_some_iff_isFirst leadsToOne_iff).mpr h]

theorem navigate_of_neither (none : ∀ r ∈ record.oneToMany, ¬ ReferredBy parent link.join r)
    (none' : ∀ r ∈ record.manyToOne, ¬ RefersTo parent link.join r) :
    navigate record parent link =
      ((crossings record link).findSome? (crossing? parent link)).getD
        (.error (unresolved parent link.join)) := by
  rw [navigate, (find?_eq_none_iff leadsToMany_iff).mpr none]
  dsimp only
  rw [(find?_eq_none_iff leadsToOne_iff).mpr none']
  exact navigateAcross_eq ..

/-- Of several ways across to the nested link, the first decides. -/
theorem findSome?_crossing?_of_isFirst {next : Link} {near far : Side}
    (h : IsFirst (fun sides => Crosses parent link next sides.1 sides.2) (near, far)
      (crossings record link)) :
    (crossings record link).findSome? (crossing? parent link) =
      some (through parent link.join .across near.navigation) := by
  obtain ⟨crosses, before, after, split, earlier⟩ := h
  have skipped : before.findSome? (crossing? parent link) = none := by
    refine List.findSome?_eq_none_iff.mpr fun sides hs => ?_
    cases hc : crossing? parent link sides with
    | none => rfl
    | some result => exact absurd (crosses_of_crossing? crosses.single hc) (earlier sides hs)
  rw [split, List.findSome?_append, skipped, Option.none_or, List.findSome?_cons,
    crossing?_of_single crosses.single crosses]

/-- Without a reference that fits, only an association leads to a link. -/
theorem bridges_of_navigate {n : Navigation}
    (none : ∀ r ∈ record.oneToMany, ¬ ReferredBy parent link.join r)
    (none' : ∀ r ∈ record.manyToOne, ¬ RefersTo parent link.join r)
    (h : navigate record parent link = .ok n) :
    n.route = .across ∧ ∃ next near far, Bridges record parent link next near far ∧
      near.navigation = some n.property := by
  cases leads_of_navigate h with
  | toMany member fits => exact absurd ((leadsToMany_iff _).mp fits) (none _ member)
  | toOne member fits => exact absurd ((leadsToOne_iff _).mp fits) (none' _ member)
  | across member intersect oriented crosses named =>
    refine ⟨rfl, _, _, _, bridges_iff.mpr ⟨?_, crosses⟩, named⟩
    exact List.mem_flatMap.mpr ⟨_, List.mem_filter.mpr ⟨member, by simpa using intersect⟩, oriented⟩

/-- Exchanging the sides of associations makes no difference to where a link leads. -/
theorem navigate_of_turns {others : List Association}
    (h : List.Forall₂ Association.Turns record.manyToMany others) :
    navigate { record with manyToMany := others } parent link = navigate record parent link := by
  have filtered : List.Forall₂ Association.Turns
      (record.manyToMany.filter fun a => a.intersectEntity == link.name)
      (others.filter fun a => a.intersectEntity == link.name) :=
    List.rel_filter (fun a b turns => by simp only [turns.intersectEntity_eq]) h
  simp only [navigate, navigateAcross_eq, findSome?_crossing?_of_turns filtered]

end Navigate

/-- What a link comes to: the property that it is reached by, whether that leads to many rows, and
the link that is joined in the end. -/
def resolution (t : Snapshot) (v : Variables) (parent : String) (link : Link) :
    Except Fault (String × Bool × Link) :=
  ((resolve parent link v).answer t).map fun (n, _) =>
    (n.property, n.isCollection, target n.route link)

def ReachedBy (property : Option String) (many : Bool) (goal : Link)
    (result : Except Fault (String × Bool × Link)) : Prop :=
  match property with
  | some name => result = .ok (name, many, goal)
  | none => ∃ cause, result = .error (.unsupported cause)

variable {t : Snapshot} {record : Schema.Entity} {parent : String} {link : Link} {v : Variables}

theorem resolution_eq (known : t.entity parent = .ok record) :
    resolution t v parent link =
      match navigate record parent link with
      | .ok n => .ok (n.property, n.isCollection, target n.route link)
      | .error cause => .error (.unsupported cause) := by
  have asked : (resolve parent link v).answer t =
      (ofExcept .unsupported (navigate record parent link) v).answer t := by
    change (Inquiry.answer t (.entity parent _)) = _
    rw [Inquiry.answer, known]
    rfl
  rw [resolution, asked]
  cases navigate record parent link <;> rfl

theorem target_across {next : Link} (single : link.links = [next]) :
    target .across link = next := by
  simp only [target, single]

theorem reachedBy_through (known : t.entity parent = .ok record) {route : Route}
    {property : Option String} {goal : Link} (goes : target route link = goal)
    (h : navigate record parent link = through parent link.join route property) :
    ReachedBy property (route != .toOne) goal (resolution t v parent link) := by
  rw [resolution_eq known, h]
  cases property with
  | none => exact ⟨_, rfl⟩
  | some name => rw [← goes]; rfl

theorem reachedBy_across (known : t.entity parent = .ok record)
    (none : ∀ r ∈ record.oneToMany, ¬ ReferredBy parent link.join r)
    (none' : ∀ r ∈ record.manyToOne, ¬ RefersTo parent link.join r) {next : Link} {near far : Side}
    (h : IsFirst (fun sides => Crosses parent link next sides.1 sides.2) (near, far)
      (crossings record link)) :
    ReachedBy near.navigation true next (resolution t v parent link) := by
  refine reachedBy_through known (target_across h.1.single) ?_
  rw [navigate_of_neither none none', findSome?_crossing?_of_isFirst h]
  rfl

/-- A link is decided by the first reference to its parent that fits it, else by the first reference
from its parent, else by the associations across it. Nothing but a missing relationship makes it
fail, and the order in which an association names its sides does not count. -/
theorem resolve_sound_complete_symmetric (known : t.entity parent = .ok record) (link : Link)
    (v : Variables) :
    (∀ r, IsFirst (ReferredBy parent link.join) r record.oneToMany →
      ReachedBy r.referencedNavigation true link (resolution t v parent link)) ∧
    ((∀ r ∈ record.oneToMany, ¬ ReferredBy parent link.join r) →
      (∀ r, IsFirst (RefersTo parent link.join) r record.manyToOne →
        ReachedBy r.referencingNavigation false link (resolution t v parent link)) ∧
      ((∀ r ∈ record.manyToOne, ¬ RefersTo parent link.join r) →
        (∀ name many goal, resolution t v parent link = .ok (name, many, goal) →
          many = true ∧ link.links = [goal] ∧
            ∃ near far, Bridges record parent link goal near far ∧ near.navigation = some name) ∧
        (∀ next near far,
          IsFirst (fun sides => Crosses parent link next sides.1 sides.2) (near, far)
            (crossings record link) →
          ReachedBy near.navigation true next (resolution t v parent link)) ∧
        ∀ next near far, Bridges record parent link next near far →
          (∀ near far, Bridges record parent link next near far → near.navigation.isSome) →
          ∃ name, resolution t v parent link = .ok (name, true, next))) ∧
    ((∃ result, resolution t v parent link = .ok result) ∨
      ∃ cause, resolution t v parent link = .error (.unsupported cause)) ∧
    ∀ t' others, List.Forall₂ Association.Turns record.manyToMany others →
      t'.entity parent = .ok { record with manyToMany := others } →
      resolution t' v parent link = resolution t v parent link := by
  refine ⟨fun r h => ?_, fun none => ⟨fun r h => ?_, fun none' => ⟨?_, ?_, ?_⟩⟩, ?_, ?_⟩
  · exact reachedBy_through known (target_eq_self (by decide) link) (navigate_of_referredBy h)
  · exact reachedBy_through known (target_eq_self (by decide) link) (navigate_of_refersTo none h)
  · intro name many goal h
    rw [resolution_eq known] at h
    cases hn : navigate record parent link with
    | error cause => simp [hn] at h
    | ok n =>
      obtain ⟨route, next, near, far, bridges, named⟩ := bridges_of_navigate none none' hn
      have single := (bridges_iff.mp bridges).2.single
      simp only [hn, Except.ok.injEq, Prod.mk.injEq, route, target_across single] at h
      obtain ⟨rfl, rfl, rfl⟩ := h
      exact ⟨by simp [Navigation.isCollection, route], single, near, far, bridges, named⟩
  · exact fun next near far h => reachedBy_across known none none' h
  · intro next near far bridges all
    obtain ⟨member, crosses⟩ := bridges_iff.mp bridges
    obtain ⟨⟨near', far'⟩, member', first⟩ := exists_isFirst
      (P := fun sides => Crosses parent link next sides.1 sides.2) member crosses
    have reached : ReachedBy _ _ _ (resolution t v parent link) :=
      reachedBy_across known none none' first
    obtain ⟨name, named⟩ := Option.isSome_iff_exists.mp
      (all near' far' (bridges_iff.mpr ⟨member', first.1⟩))
    rw [named] at reached
    exact ⟨name, reached⟩
  · rw [resolution_eq known]
    cases navigate record parent link with
    | ok n => exact Or.inl ⟨_, rfl⟩
    | error cause => exact Or.inr ⟨cause, rfl⟩
  · intro t' others turned known'
    rw [resolution_eq known, resolution_eq known', navigate_of_turns turned]

def trade : Association :=
  { schemaName := "account_trade", intersectEntity := "trade",
    first := ⟨"account", some "sellerid", some "buyers"⟩
    second := ⟨"account", some "buyerid", some "sellers"⟩ }

def trader (associations : List Association) : Schema.Entity :=
  { name := "account", setName := some "accounts", primaryKey := "accountid",
    manyToMany := associations }

def buyer : Link :=
  { join := { entity := "account", fromColumn := "accountid", toColumn := "buyerid" } }

def sale : Link :=
  { join := { entity := "trade", fromColumn := "sellerid", toColumn := "accountid" },
    links := [buyer] }

/-- From the seller's side an association of accounts with accounts leads to the buyers, whichever
side comes first in its record. -/
theorem resolve_sound_complete_symmetric_sale :
    (Catalog.ofList [trader [trade]]).snapshot.entity "account" = .ok (trader [trade]) ∧
      resolution (Catalog.ofList [trader [trade]]).snapshot {} "account" sale =
        .ok ("buyers", true, buyer) ∧
      resolution (Catalog.ofList [trader [trade.exchanged]]).snapshot {} "account" sale =
        .ok ("buyers", true, buyer) := by
  have known : (Catalog.ofList [trader [trade]]).snapshot.entity "account" =
      .ok (trader [trade]) := by
    decide +kernel
  have known' : (Catalog.ofList [trader [trade.exchanged]]).snapshot.entity "account" =
      .ok (trader [trade.exchanged]) := by
    decide +kernel
  obtain ⟨_, across, _, turned⟩ := resolve_sound_complete_symmetric known sale {}
  obtain ⟨_, across⟩ := across (List.forall_mem_nil _)
  obtain ⟨_, first, _⟩ := across (List.forall_mem_nil _)
  have buyers : resolution (Catalog.ofList [trader [trade]]).snapshot {} "account" sale =
      .ok ("buyers", true, buyer) := by
    refine first buyer trade.first trade.second ⟨⟨rfl, rfl, rfl, rfl, rfl⟩, [], _, rfl, ?_⟩
    exact List.forall_mem_nil _
  refine ⟨known, buyers, ?_⟩
  rw [turned _ [trade.exchanged] (.cons (.exchanged (Or.inr (by decide))) .nil) known', buyers]

end Compile

end FetchOData
