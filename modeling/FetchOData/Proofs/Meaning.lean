import FetchOData.Proofs.FilterRules
import FetchOData.Proofs.Occurrence

namespace FetchOData

def Query.Quantifier.over : Quantifier → List α → (α → Bool) → Bool
  | any, rows, test => rows.any test
  | all, rows, test => rows.all test

/-- The value of items with the connective between them, none when there are no items. -/
def Connective.combine? (connective : Connective) (items : List Bool) : Option Bool :=
  if items.isEmpty then none
  else
    match connective with
    | .and => some (items.all id)
    | .or => some (items.any id)

theorem Connective.isSome_combine? (connective : Connective) (items : List Bool) :
    (connective.combine? items).isSome = !items.isEmpty := by
  unfold Connective.combine?
  cases items <;> cases connective <;> rfl

/-- De Morgan's laws. -/
theorem Connective.combine?_flip_map_not (connective : Connective) (items : List Bool) :
    connective.flip.combine? (items.map (!·)) = (connective.combine? items).map (!·) := by
  unfold Connective.combine?
  cases items with
  | nil => rfl
  | cons item items =>
    cases connective <;>
      simp [Connective.flip, List.all_map, List.any_map, List.not_all_eq_any_not,
        List.not_any_eq_all_not]

namespace OData
open Query (Quantifier)

abbrev Scope (Row : Type) := String → Option Row

def Scope.empty : Scope Row :=
  fun _ => none

def Scope.set (scope : Scope Row) (range : String) (row : Row) : Scope Row :=
  fun name => if name = range then some row else scope name

structure World (Row : Type) where
  /-- The rows of a collection behind a path. -/
  rows : Scope Row → Path → String → List Row
  /-- Whether a condition holds that is not about related rows. -/
  atom : Scope Row → Predicate → Bool

mutual
/-- The value of a predicate. Related rows count if every group of the body is as `wanted`: what
the predicate says is its value where they are wanted to hold. -/
def Predicate.value (w : World Row) (wanted : Bool) (scope : Scope Row) : Predicate → Bool
  | .related negated path collection quantifier range body =>
    negated ^^ quantifier.over (w.rows scope path collection) fun row =>
      (Group.values w wanted (scope.set range row) body).all (· == wanted)
  | p => w.atom scope p
def Group.value? (w : World Row) (wanted : Bool) (scope : Scope Row) : Group → Option Bool
  | ⟨connective, predicates, groups⟩ =>
    connective.combine?
      (Predicate.values w wanted scope predicates ++ Group.values w wanted scope groups)
def Predicate.values (w : World Row) (wanted : Bool) (scope : Scope Row) :
    List Predicate → List Bool
  | [] => []
  | p :: ps =>
    if p.text.isEmpty then Predicate.values w wanted scope ps
    else p.value w wanted scope :: Predicate.values w wanted scope ps
def Group.values (w : World Row) (wanted : Bool) (scope : Scope Row) : List Group → List Bool
  | [] => []
  | g :: gs =>
    match g.value? w wanted scope with
    | some value => value :: Group.values w wanted scope gs
    | none => Group.values w wanted scope gs
end

namespace World

def holds (w : World Row) (scope : Scope Row) (p : Predicate) : Bool :=
  p.value w true scope

def holdsAll (w : World Row) (scope : Scope Row) (gs : List Group) : Bool :=
  (Group.values w true scope gs).all id

theorem holds_related (w : World Row) (scope : Scope Row) (negated : Bool) (path : Path)
    (collection : String) (quantifier : Quantifier) (range : String) (body : List Group) :
    w.holds scope (.related negated path collection quantifier range body) =
      (negated ^^ quantifier.over (w.rows scope path collection) fun row =>
        w.holdsAll (scope.set range row) body) := by
  rw [holds, Predicate.value]
  simp only [holdsAll, beq_true]
  rfl

end World

theorem Predicate.values_append (w : World Row) (wanted : Bool) (scope : Scope Row)
    (ps qs : List Predicate) :
    Predicate.values w wanted scope (ps ++ qs) =
      Predicate.values w wanted scope ps ++ Predicate.values w wanted scope qs := by
  induction ps with
  | nil => rw [Predicate.values, List.nil_append, List.nil_append]
  | cons p ps ih =>
    rw [List.cons_append, Predicate.values, Predicate.values, ih]
    split <;> rfl

/-- A predicate on related rows is always written. -/
theorem Predicate.values_related (w : World Row) (wanted : Bool) (scope : Scope Row)
    (negated : Bool) (path : Path) (collection : String) (quantifier : Quantifier) (range : String)
    (body : List Group) (ps : List Predicate) :
    Predicate.values w wanted scope
        (.related negated path collection quantifier range body :: ps) =
      (negated ^^ quantifier.over (w.rows scope path collection) fun row =>
        (Group.values w wanted (scope.set range row) body).all (· == wanted)) ::
        Predicate.values w wanted scope ps := by
  rw [Predicate.values, if_neg (by simpa using related_text_ne), Predicate.value]

theorem Group.values_cons (w : World Row) (wanted : Bool) (scope : Scope Row) (g : Group)
    (gs : List Group) :
    Group.values w wanted scope (g :: gs) =
      (g.value? w wanted scope).toList ++ Group.values w wanted scope gs := by
  rw [Group.values]
  cases g.value? w wanted scope <;> rfl

theorem Group.values_append (w : World Row) (wanted : Bool) (scope : Scope Row)
    (gs gs' : List Group) :
    Group.values w wanted scope (gs ++ gs') =
      Group.values w wanted scope gs ++ Group.values w wanted scope gs' := by
  induction gs with
  | nil => rw [Group.values, List.nil_append, List.nil_append]
  | cons g gs ih =>
    rw [List.cons_append, Group.values_cons, Group.values_cons, ih, List.append_assoc]

namespace World

@[simp] theorem holdsAll_append (w : World Row) (scope : Scope Row) (gs gs' : List Group) :
    w.holdsAll scope (gs ++ gs') = (w.holdsAll scope gs && w.holdsAll scope gs') := by
  rw [holdsAll, Group.values_append, List.all_append, holdsAll, holdsAll]

theorem holdsAll_single (w : World Row) (scope : Scope Row) {p : Predicate} (h : p.text ≠ "") :
    w.holdsAll scope [Group.single p] = w.holds scope p := by
  have hv : Predicate.values w true scope [p] = [w.holds scope p] := by
    rw [Predicate.values, if_neg (by simpa using h), Predicate.values, holds]
  rw [holdsAll, Group.values_cons, Group.single, Group.value?, hv, Group.values]
  cases w.holds scope p <;> rfl

end World

theorem Predicate.isEmpty_values (w : World Row) (wanted : Bool) (scope : Scope Row)
    (ps : List Predicate) :
    (Predicate.values w wanted scope ps).isEmpty = (Predicate.texts ps).isEmpty := by
  induction ps with
  | nil => rw [Predicate.values, Predicate.texts, List.isEmpty_nil, List.isEmpty_nil]
  | cons p ps ih =>
    rw [Predicate.values, Predicate.texts]
    split
    · exact ih
    · rfl

mutual
theorem Group.isSome_value? (w : World Row) (wanted : Bool) (scope : Scope Row) :
    ∀ g : Group, (g.value? w wanted scope).isSome = g.text?.isSome
  | ⟨connective, predicates, groups⟩ => by
    have hp := Predicate.isEmpty_values w wanted scope predicates
    have hg := Group.isEmpty_values w wanted scope groups
    rw [Bool.eq_iff_iff, List.isEmpty_iff, List.isEmpty_iff] at hp hg
    have hi :
        Predicate.values w wanted scope predicates ++ Group.values w wanted scope groups = [] ↔
          Predicate.texts predicates ++ Group.texts groups = [] := by
      rw [List.append_eq_nil_iff, List.append_eq_nil_iff, hp, hg]
    rw [Group.value?, Group.text?, Connective.isSome_combine?, parenthesized?]
    simp only [List.isEmpty_iff]
    split <;> simp_all
theorem Group.isEmpty_values (w : World Row) (wanted : Bool) (scope : Scope Row) :
    ∀ gs : List Group, (Group.values w wanted scope gs).isEmpty = (Group.texts gs).isEmpty
  | [] => by rw [Group.values, Group.texts, List.isEmpty_nil, List.isEmpty_nil]
  | g :: gs => by
    have hg := Group.isSome_value? w wanted scope g
    have hs := Group.isEmpty_values w wanted scope gs
    rw [Group.values, Group.texts]
    cases hv : g.value? w wanted scope <;> cases ht : g.text? <;> simp_all
end

/-- Groups that are written as something have a value. -/
theorem Group.isSome_conjunction? (w : World Row) (wanted : Bool) (scope : Scope Row)
    (gs : List Group) :
    (Group.conjunction? gs).isSome = !(Group.values w wanted scope gs).isEmpty := by
  rw [Group.conjunction?, OData.conjunction?, Group.isEmpty_values]
  cases (Group.texts gs).isEmpty <;> rfl

end OData

namespace Query

mutual
def Filter.value? (condition : Condition → Bool) (link : Link → Bool) : Filter → Option Bool
  | ⟨connective, conditions, filters, links⟩ =>
    connective.combine?
      (conditions.map condition ++ links.map link ++ Filter.values condition link filters)
def Filter.values (condition : Condition → Bool) (link : Link → Bool) : List Filter → List Bool
  | [] => []
  | f :: fs => (f.value? condition link).toList ++ Filter.values condition link fs
end

end Query

namespace Compile
open Query OData

variable {t : Snapshot} {root : Query.Entity} {w : World Row}

theorem Shape.value_eq {attr : Schema.Attribute} {path : Path} {c : Condition} {p : Predicate}
    (h : Shape attr path c p) (wanted : Bool) (scope : Scope Row) :
    p.value w wanted scope = w.atom scope p := by
  cases h <;> simp [Predicate.value]

/-- The values of written conditions are those that the world gives them. -/
theorem values_of_renders {site : Site} {cs : List Condition} {ps : List Predicate}
    (h : List.Forall₂ (Renders t root site) cs ps) (wanted : Bool) (scope : Scope Row) :
    Predicate.values w wanted scope ps = ps.map (w.atom scope) := by
  induction h with
  | nil => rw [Predicate.values, List.map_nil]
  | cons hp _ ih =>
    obtain ⟨_, _, _, _, _, _, _, shape⟩ := hp.shape
    rw [Predicate.values, if_neg (by simpa using shape.text_ne), ih, shape.value_eq, List.map_cons]

theorem map_of_renders {condition : Condition → Bool} {site : Site} {value : Predicate → Bool}
    (agree : ∀ c p, Renders t root site c p → value p = condition c) {cs : List Condition}
    {ps : List Predicate} (h : List.Forall₂ (Renders t root site) cs ps) :
    ps.map value = cs.map condition := by
  induction h with
  | nil => rfl
  | cons hp _ ih => rw [List.map_cons, List.map_cons, agree _ _ hp, ih]

/-- Groups say what their filters say, if that is so of the conditions and of the links. -/
theorem GroupsOf.values_eq {condition : Condition → Bool} {link : Link → Bool} {site : Site}
    {scope : Scope Row} {wanted : Bool}
    (conditions : ∀ c p, Renders t root site c p → w.atom scope p = condition c)
    (links : ∀ v ls ps v', RelatedOf t root site v ls ps v' →
      Predicate.values w wanted scope ps = ls.map link)
    {v v' : Variables} {fs : List Filter} {gs : List Group}
    (h : GroupsOf t root site v fs gs v') :
    Group.values w wanted scope gs = Filter.values condition link fs := by
  match fs with
  | [] =>
    cases h
    rw [Group.values, Filter.values]
  | ⟨connective, cs, filters, ls⟩ :: fs =>
    cases h with
    | cons own related nested rest =>
      have hn := GroupsOf.values_eq conditions links nested
      have hr := GroupsOf.values_eq conditions links rest
      have ho := map_of_renders conditions own
      rw [Group.values_cons, Group.value?, Filter.values, Filter.value?, Predicate.values_append,
        values_of_renders own, links _ _ _ _ related, hn, hr, ho]
termination_by Filter.sizes fs
decreasing_by
  all_goals simp only [Filter.sizes, Filter.size]; omega

end Compile

end FetchOData
