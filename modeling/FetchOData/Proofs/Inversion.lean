import Mathlib.Data.List.Forall2
import FetchOData.Query.Build
import FetchOData.Query.Size

namespace FetchOData.Query

theorem mapM_eq_ok_iff {f : α → Except ε β} {xs : List α} {ys : List β} :
    xs.mapM f = .ok ys ↔ List.Forall₂ (fun x y => f x = .ok y) xs ys := by
  induction xs generalizing ys with
  | nil =>
    rw [List.mapM_nil, List.forall₂_nil_left_iff]
    exact ⟨fun h => (Except.ok.inj h).symm, fun h => congrArg _ h.symm⟩
  | cons x xs ih =>
    rw [List.mapM_cons, List.forall₂_cons_left_iff]
    simp only [← ih]
    cases hx : f x with
    | error cause => simp [bind, Except.bind]
    | ok y =>
      cases hs : xs.mapM f with
      | error cause => simp [bind, Except.bind]
      | ok ys' => simp [bind, Except.bind, pure, Except.pure, eq_comm]

theorem Operator.inverse?_symm {o o' : Operator} (h : o.inverse? = some o') :
    o'.inverse? = some o := by
  cases o <;> cases h <;> rfl

theorem Condition.invert_eq_ok_iff {c c' : Condition} :
    c.invert = .ok c' ↔ ∃ o, c.operator.inverse? = some o ∧ c' = { c with operator := o } := by
  unfold Condition.invert
  cases c.operator.inverse? <;> simp [eq_comm]

theorem Condition.invert_symm {c c' : Condition} (h : c.invert = .ok c') : c'.invert = .ok c := by
  obtain ⟨o, ho, rfl⟩ := Condition.invert_eq_ok_iff.mp h
  exact Condition.invert_eq_ok_iff.mpr ⟨c.operator, Operator.inverse?_symm ho, rfl⟩

theorem Link.invert_eq_ok_iff {l l' : Link} :
    l.invert = .ok l' ↔ ∃ quantifier negated, l.join.kind = .related quantifier negated ∧
      l' = l.withKind (.related quantifier !negated) := by
  unfold Link.invert
  cases l.join.kind with
  | inner => simp [LinkKind.negate?]
  | outer => simp [LinkKind.negate?]
  | related quantifier negated =>
    constructor
    · intro h
      exact ⟨quantifier, negated, rfl, (Except.ok.inj h).symm⟩
    · rintro ⟨_, _, ⟨rfl, rfl⟩, rfl⟩
      rfl

theorem Link.invert_symm {l l' : Link} (h : l.invert = .ok l') : l'.invert = .ok l := by
  obtain ⟨quantifier, negated, hk, rfl⟩ := Link.invert_eq_ok_iff.mp h
  refine Link.invert_eq_ok_iff.mpr ⟨quantifier, !negated, rfl, ?_⟩
  cases l
  simp only [Bool.not_not, ← hk]
  rfl

theorem Filter.invert_eq_ok_iff {connective : Connective} {conditions : List Condition}
    {filters : List Filter} {links : List Link} {g : Filter} :
    Filter.invert ⟨connective, conditions, filters, links⟩ = .ok g ↔
      ∃ conditions' filters' links', g = ⟨connective.flip, conditions', filters', links'⟩ ∧
        List.Forall₂ (fun c c' => c.invert = .ok c') conditions conditions' ∧
        List.Forall₂ (fun l l' => l.invert = .ok l') links links' ∧
        Filter.invertAll filters = .ok filters' := by
  rw [Filter.invert]
  simp only [← mapM_eq_ok_iff]
  cases conditions.mapM Condition.invert <;> cases links.mapM Link.invert <;>
    cases Filter.invertAll filters <;>
    simp [bind, Except.bind, pure, Except.pure, eq_comm]

theorem Filter.invertAll_cons_eq_ok_iff {f : Filter} {fs gs : List Filter} :
    Filter.invertAll (f :: fs) = .ok gs ↔
      ∃ g gs', gs = g :: gs' ∧ f.invert = .ok g ∧ Filter.invertAll fs = .ok gs' := by
  rw [Filter.invertAll]
  cases f.invert <;> cases Filter.invertAll fs <;>
    simp [bind, Except.bind, pure, Except.pure, eq_comm]

/-- The inverse of the inverse is the filter itself. -/
theorem Filter.invertAll_symm {fs gs : List Filter} (h : Filter.invertAll fs = .ok gs) :
    Filter.invertAll gs = .ok fs := by
  match fs with
  | [] =>
    cases h
    rfl
  | ⟨connective, conditions, filters, links⟩ :: fs =>
    obtain ⟨g, gs, rfl, hg, hs⟩ := Filter.invertAll_cons_eq_ok_iff.mp h
    obtain ⟨conditions', filters', links', rfl, hc, hl, hf⟩ := Filter.invert_eq_ok_iff.mp hg
    refine Filter.invertAll_cons_eq_ok_iff.mpr ⟨_, _, rfl, ?_, Filter.invertAll_symm hs⟩
    refine Filter.invert_eq_ok_iff.mpr ⟨conditions, filters, links, by simp, ?_, ?_,
      Filter.invertAll_symm hf⟩
    · exact (hc.imp fun _ _ => Condition.invert_symm).flip
    · exact (hl.imp fun _ _ => Link.invert_symm).flip
termination_by Filter.sizes fs
decreasing_by
  all_goals simp only [Filter.sizes, Filter.size]; omega

theorem Filter.isEmpty_invert {f g : Filter} (h : f.invert = .ok g) : g.isEmpty = f.isEmpty := by
  obtain ⟨connective, conditions, filters, links⟩ := f
  obtain ⟨conditions', filters', links', rfl, hc, hl, hf⟩ := Filter.invert_eq_ok_iff.mp h
  have hn : filters'.isEmpty = filters.isEmpty := by
    cases filters with
    | nil => cases hf; rfl
    | cons f fs =>
      obtain ⟨_, _, rfl, _⟩ := Filter.invertAll_cons_eq_ok_iff.mp hf
      rfl
  have isEmpty_eq {α : Type} {R : α → α → Prop} {xs ys : List α} (h : List.Forall₂ R xs ys) :
      ys.isEmpty = xs.isEmpty := by
    cases h <;> rfl
  simp only [Filter.isEmpty, hn, isEmpty_eq hc, isEmpty_eq hl]

/-- Filters with nothing in them can be left out before or after. -/
theorem Filter.invertAll_nonEmpty {fs gs : List Filter} (h : Filter.invertAll fs = .ok gs) :
    Filter.invertAll (Filter.nonEmpty fs) = .ok (Filter.nonEmpty gs) := by
  induction fs generalizing gs with
  | nil => cases h; rfl
  | cons f fs ih =>
    obtain ⟨g, gs, rfl, hg, hs⟩ := Filter.invertAll_cons_eq_ok_iff.mp h
    simp only [Filter.nonEmpty, List.filter_cons, Filter.isEmpty_invert hg] at ih ⊢
    split
    · exact Filter.invertAll_cons_eq_ok_iff.mpr ⟨g, _, rfl, hg, ih hs⟩
    · exact ih hs

end FetchOData.Query
