import Mathlib.Data.List.Forall2
import FetchOData.Proofs.ConditionRules

namespace FetchOData

def Variables.lambda (v : Variables) : String :=
  "x" ++ Number.integerText (v.lambdas + 1)

def Variables.afterLambda (v : Variables) : Variables :=
  { v with lambdas := v.lambdas + 1 }

namespace Compile
open Query OData

mutual
/-- Filters and the groups that they are compiled to. -/
inductive GroupsOf (t : Snapshot) (root : Query.Entity) :
    Site → Variables → List Filter → List Group → Variables → Prop where
  | nil : GroupsOf t root site v [] [] v
  | cons (own : List.Forall₂ (Renders t root site) conditions predicates)
      (related : RelatedOf t root site v links others v₁)
      (nested : GroupsOf t root site v₁ filters innerGroups v₂)
      (rest : GroupsOf t root site v₂ fs gs v₃) :
      GroupsOf t root site v (⟨connective, conditions, filters, links⟩ :: fs)
        (⟨connective, predicates ++ others, innerGroups⟩ :: gs) v₃
inductive RelatedOf (t : Snapshot) (root : Query.Entity) :
    Site → Variables → List Link → List Predicate → Variables → Prop where
  | nil : RelatedOf t root site v [] [] v
  | cons (kind : link.join.kind = .related quantifier negated)
      (resolves : Resolves t site.entity link n)
      (reading : Filter.reading negated (target n.route link).filters = .ok filters)
      (body : GroupsOf t root ⟨(target n.route link).name, [v.lambda]⟩ v.afterLambda
        (Filter.nonEmpty filters) gs v₁)
      (rest : RelatedOf t root site v₁ links others v₂) :
      RelatedOf t root site v (link :: links)
        (.related negated site.path n.property quantifier v.lambda gs :: others) v₂
end

variable {t : Snapshot} {root : Query.Entity}

theorem gives_conditions {site : Site} {v v' : Variables} {cs : List Condition}
    {ps : List Predicate} :
    Gives t (cs.mapM (condition root site)) v ps v' ↔
      List.Forall₂ (Renders t root site) cs ps ∧ v = v' := by
  induction cs generalizing ps v v' with
  | nil =>
    rw [List.mapM_nil, gives_pure, List.forall₂_nil_left_iff]
    exact and_congr_left fun _ => eq_comm
  | cons c cs ih =>
    rw [List.mapM_cons]
    simp only [gives_bind, gives_pure, gives_condition, ih, List.forall₂_cons_left_iff]
    constructor
    · rintro ⟨p, _, ⟨hp, rfl⟩, ps, _, ⟨hs, rfl⟩, rfl, rfl⟩
      exact ⟨⟨p, ps, hp, hs, rfl⟩, rfl⟩
    · rintro ⟨⟨p, ps, hp, hs, rfl⟩, rfl⟩
      exact ⟨p, v, ⟨hp, rfl⟩, ps, v, ⟨hs, rfl⟩, rfl, rfl⟩

mutual
theorem groupsOf_of_gives {site : Site} {v v' : Variables} {fs : List Filter} {gs : List Group}
    (h : Gives t (groups root site fs) v gs v') : GroupsOf t root site v fs gs v' := by
  match fs with
  | [] =>
    rw [groups] at h
    obtain ⟨rfl, rfl⟩ := gives_pure.mp h
    exact .nil
  | ⟨connective, conditions, filters, links⟩ :: fs =>
    rw [groups] at h
    simp only [gives_bind, gives_pure] at h
    obtain ⟨own, _, ho, related, _, hl, inner, _, hn, rest, _, hr, rfl, rfl⟩ := h
    obtain ⟨hc, rfl⟩ := gives_conditions.mp ho
    exact .cons hc (relatedOf_of_gives hl) (groupsOf_of_gives hn) (groupsOf_of_gives hr)
termination_by Filter.sizes fs
decreasing_by
  all_goals simp only [Filter.sizes, Filter.size]; omega
theorem relatedOf_of_gives {site : Site} {v v' : Variables} {ls : List Link}
    {ps : List Predicate}
    (h : Gives t (relatedPredicates root site ls) v ps v') :
    RelatedOf t root site v ls ps v' := by
  match ls with
  | [] =>
    rw [relatedPredicates] at h
    obtain ⟨rfl, rfl⟩ := gives_pure.mp h
    exact .nil
  | link :: links =>
    rw [relatedPredicates] at h
    split at h
    · rename_i quantifier negated kind
      simp only [gives_bind, gives_freshLambda, gives_resolve] at h
      obtain ⟨_, _, ⟨rfl, rfl⟩, n, _, ⟨hn, rfl⟩, h⟩ := h
      split at h
      · exact absurd h gives_reject
      · rename_i filters reading
        simp only [gives_bind, gives_pure] at h
        obtain ⟨body, _, hb, others, _, ho, rfl, rfl⟩ := h
        have : Filter.sizes (Filter.nonEmpty filters) < Link.sizes (link :: links) :=
          Nat.lt_of_le_of_lt (Filter.sizes_nonEmpty_le filters)
            (Filter.sizes_reading reading ▸ sizes_target_filters_lt n.route link links)
        exact .cons kind hn reading (groupsOf_of_gives hb) (relatedOf_of_gives ho)
    · exact absurd h gives_reject
termination_by Link.sizes ls
decreasing_by
  · assumption
  · exact sizes_rest_lt ..
end

end Compile

end FetchOData
