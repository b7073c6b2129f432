import FetchOData.Query.Size
import FetchOData.Compile.Inquiry

namespace FetchOData.Compile
open Query Schema

/-- To the rows that refer to the parent, to the row the parent refers to, or across an intersect
entity. -/
inductive Route where
  | toMany
  | toOne
  | across
deriving DecidableEq, Repr

structure Navigation where
  property : String
  route : Route
deriving DecidableEq, Repr

def Navigation.isCollection (n : Navigation) : Bool :=
  n.route != .toOne

/-- The link that is joined in the end. Across an intersect entity that is the link nested in the
one to it. -/
def target (route : Route) (link : Link) : Link :=
  match route, link.links with
  | .across, [next] => next
  | _, _ => link

/-- The reference leads from the parent to the link's rows. -/
def leadsToMany (parent : String) (join : Join) (r : Reference) : Bool :=
  r.referencedEntity == parent && r.referencedAttribute == some join.toColumn &&
    r.referencingEntity == join.entity && r.referencingAttribute == join.fromColumn

/-- The reference leads from the parent to the link's row. -/
def leadsToOne (parent : String) (join : Join) (r : Reference) : Bool :=
  r.referencingEntity == parent && r.referencingAttribute == join.toColumn &&
    r.referencedEntity == join.entity && r.referencedAttribute == some join.fromColumn

def unresolved (parent : String) (join : Join) : Unsupported :=
  .relationship parent join.toColumn join.entity join.fromColumn

/-- A relationship counts only with a navigation property. -/
def through (parent : String) (join : Join) (route : Route) :
    Option String → Except Unsupported Navigation
  | some property => .ok ⟨property, route⟩
  | none => .error (unresolved parent join)

/-- The first orientation that leaves from the parent's side and arrives at the nested link. -/
def navigateAcross (parent : String) (link : Link) :
    List (Side × Side) → Except Unsupported Navigation
  | [] => .error (unresolved parent link.join)
  | (near, far) :: rest =>
    if near.entity == parent && near.intersectAttribute == some link.join.fromColumn then
      match link.links with
      | [] => navigateAcross parent link rest
      | [next] =>
        if next.name == far.entity && far.intersectAttribute == some next.join.toColumn then
          through parent link.join .across near.navigation
        else navigateAcross parent link rest
      | _ => .error (.manyToManyShape link.name)
    else navigateAcross parent link rest

/-- The way from the parent, whose record is given, to a link. -/
def navigate (record : Schema.Entity) (parent : String) (link : Link) :
    Except Unsupported Navigation :=
  match record.oneToMany.find? (leadsToMany parent link.join) with
  | some r => through parent link.join .toMany r.referencedNavigation
  | none =>
    match record.manyToOne.find? (leadsToOne parent link.join) with
    | some r => through parent link.join .toOne r.referencingNavigation
    | none =>
      let associations := record.manyToMany.filter fun a => a.intersectEntity == link.name
      navigateAcross parent link (associations.flatMap Association.orientations)

def resolve (parent : String) (link : Link) : Compile Navigation := do
  let record ← entity parent
  ofExcept .unsupported (navigate record parent link)

theorem size_target_le (route : Route) (link : Link) : (target route link).size ≤ link.size := by
  unfold target
  split
  · next h =>
    have := link.size_eq
    simp only [h, Link.sizes] at this
    omega
  · exact Nat.le_refl _

theorem sizes_target_links_lt (route : Route) (link : Link) (rest : List Link) :
    Link.sizes (target route link).links < Link.sizes (link :: rest) := by
  have := size_target_le route link
  have := (target route link).size_eq
  simp only [Link.sizes]
  omega

theorem sizes_target_filters_lt (route : Route) (link : Link) (rest : List Link) :
    Filter.sizes (target route link).filters < Link.sizes (link :: rest) := by
  have := size_target_le route link
  have := (target route link).size_eq
  simp only [Link.sizes]
  omega

theorem sizes_rest_lt (link : Link) (rest : List Link) :
    Link.sizes rest < Link.sizes (link :: rest) := by
  simp only [Link.sizes]
  omega

end FetchOData.Compile
