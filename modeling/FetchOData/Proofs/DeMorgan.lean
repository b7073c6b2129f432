import FetchOData.Proofs.Complement
import FetchOData.Proofs.Involution
import FetchOData.Proofs.Pruning

namespace FetchOData.Query

/-- A condition and its inverse never agree, nor do a link and its negation. -/
structure Flips (condition : Condition → Bool) (link : Link → Bool) : Prop where
  conditions : ∀ c o, c.operator.inverse? = some o →
    condition { c with operator := o } = !condition c
  links : ∀ l kind, l.join.kind.negate? = some kind → link (l.withKind kind) = !link l

section Value

variable {condition : Condition → Bool} {link : Link → Bool}

mutual
/-- Only filters that hold a condition or a link somewhere have a value. -/
theorem Filter.isSome_value? (condition : Condition → Bool) (link : Link → Bool) (f : Filter) :
    (f.value? condition link).isSome = !f.isVoid := by
  match f with
  | ⟨connective, conditions, filters, links⟩ =>
    rw [Filter.value?, Connective.isSome_combine?, Filter.isVoid,
      ← Filter.isEmpty_values condition link filters]
    cases conditions <;> cases links <;> simp
theorem Filter.isEmpty_values (condition : Condition → Bool) (link : Link → Bool)
    (fs : List Filter) : (Filter.values condition link fs).isEmpty = Filter.allVoid fs := by
  match fs with
  | [] => rfl
  | f :: fs =>
    have head := Filter.isSome_value? condition link f
    rw [Filter.values, Filter.allVoid, ← Filter.isEmpty_values condition link fs]
    cases hv : f.value? condition link with
    | none => simp_all
    | some b => simp_all
end

theorem map_of_opposite {R : α → α → Prop} {value : α → Bool}
    (opposite : ∀ x y, R x y → value y = !value x) {xs ys : List α} (h : List.Forall₂ R xs ys) :
    ys.map value = (xs.map value).map (!·) := by
  induction h with
  | nil => rfl
  | cons head _ ih => simp [opposite _ _ head, ih]

mutual
theorem Filter.value?_invert (flips : Flips condition link) {f g : Filter}
    (h : f.invert = .ok g) : g.value? condition link = (f.value? condition link).map (!·) := by
  match f with
  | ⟨connective, conditions, filters, links⟩ =>
    obtain ⟨conditions', filters', links', rfl, own, related, nested⟩ :=
      Filter.invert_eq_ok_iff.mp h
    have values := Filter.values_invert flips nested
    have fromConditions : conditions'.map condition = (conditions.map condition).map (!·) := by
      apply map_of_opposite _ own
      intro c d inverse
      obtain ⟨o, ho, rfl⟩ := Condition.invert_eq_ok_iff.mp inverse
      exact flips.conditions c o ho
    have fromLinks : links'.map link = (links.map link).map (!·) := by
      apply map_of_opposite _ related
      intro l m inverse
      obtain ⟨kind, hk, rfl⟩ := Link.invert_eq_ok_iff_negate.mp inverse
      exact flips.links l kind hk
    rw [Filter.value?, Filter.value?, values, fromConditions, fromLinks, ← List.map_append,
      ← List.map_append, Connective.combine?_flip_map_not]
theorem Filter.values_invert (flips : Flips condition link) {fs gs : List Filter}
    (h : Filter.invertAll fs = .ok gs) :
    Filter.values condition link gs = (Filter.values condition link fs).map (!·) := by
  match fs with
  | [] =>
    cases h
    rfl
  | f :: fs =>
    obtain ⟨g, gs, rfl, head, rest⟩ := Filter.invertAll_cons_eq_ok_iff.mp h
    rw [Filter.values, Filter.values, Filter.value?_invert flips head,
      Filter.values_invert flips rest, List.map_append]
    cases f.value? condition link <;> rfl
end

end Value

/-- The inverse of a filter that holds a condition or a link says the opposite of it. The two hold
as many conditions and links at every position, and filters at the same position are opposites as
well. -/
theorem Filter.invert_says_opposite {f g : Filter} {condition : Condition → Bool}
    {link : Link → Bool} (held : f.isVoid = false) (h : f.invert = .ok g)
    (flips : Flips condition link) :
    (∃ b, f.value? condition link = some b ∧ g.value? condition link = some !b) ∧
      ∀ path, Option.Rel
        (fun n m => m.conditions.length = n.conditions.length ∧ m.links.length = n.links.length ∧
          m.value? condition link = (n.value? condition link).map (!·))
        (f.at? path) (g.at? path) := by
  constructor
  · have defined : (f.value? condition link).isSome := by
      rw [Filter.isSome_value?, held]
      rfl
    obtain ⟨b, hb⟩ := Option.isSome_iff_exists.mp defined
    refine ⟨b, hb, ?_⟩
    rw [Filter.value?_invert flips h, hb, Option.map_some]
  · intro path
    apply rel_imp _ (Filter.at?_invert h path)
    intro n m inverse
    have opposite := Filter.opposite_of_invert inverse
    exact ⟨opposite.conditions.length_eq.symm, opposite.links.length_eq.symm,
      Filter.value?_invert flips inverse⟩

def Condition.isPositive (c : Condition) : Bool :=
  (Compile.Form.ofOperator c.operator).positive

def Link.isPositive (l : Link) : Bool :=
  !l.join.kind.isNegated

theorem flips_isPositive : Flips Condition.isPositive Link.isPositive := by
  refine ⟨fun c o h => Compile.positive_inverse h, ?_⟩
  intro l kind h
  change (!kind.isNegated) = !!l.join.kind.isNegated
  revert h
  generalize l.join.kind = before
  intro h
  cases before <;> cases h
  rfl

theorem Filter.invert_says_opposite_fewOrNamed :
    fewOrNamed.isVoid = false ∧ fewOrNamed.invert = .ok manyAndUnnamed ∧
      fewOrNamed.value? Condition.isPositive Link.isPositive = some true ∧
      manyAndUnnamed.value? Condition.isPositive Link.isPositive = some false := by
  obtain ⟨b, value, inverse⟩ :=
    (Filter.invert_says_opposite rfl invert_fewOrNamed flips_isPositive).1
  have holds : fewOrNamed.value? Condition.isPositive Link.isPositive = some true := by rfl
  cases holds.symm.trans value
  exact ⟨rfl, invert_fewOrNamed, holds, inverse⟩

end FetchOData.Query
