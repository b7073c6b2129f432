import FetchOData.Compile.Condition

namespace FetchOData.Compile
open Query OData

mutual
/-- A group for each filter. The conditions on related rows follow the filter's own conditions. -/
def groups (root : Query.Entity) (site : Site) (filters : List Filter) : Compile (List Group) :=
  match filters with
  | [] => pure []
  | ⟨connective, conditions, nested, links⟩ :: rest => do
    let own ← conditions.mapM (condition root site)
    let related ← relatedPredicates root site links
    let inner ← groups root site nested
    return ⟨connective, own ++ related, inner⟩ :: (← groups root site rest)
termination_by Filter.sizes filters
decreasing_by
  all_goals simp only [Filter.sizes, Filter.size]; omega
/-- A predicate for each link. A negated link is written as the negation of a predicate whose body
is inverted. -/
def relatedPredicates (root : Query.Entity) (site : Site) (links : List Link) :
    Compile (List Predicate) :=
  match links with
  | [] => pure []
  | link :: rest =>
    match link.join.kind with
    | .related quantifier negated => do
      let range ← freshLambda
      let navigation ← resolve site.entity link
      let goal := target navigation.route link
      match h : Filter.reading negated goal.filters with
      | .error cause => reject (.unsupported cause)
      | .ok filters =>
        have : Filter.sizes (Filter.nonEmpty filters) < Link.sizes (link :: rest) :=
          Nat.lt_of_le_of_lt (Filter.sizes_nonEmpty_le filters)
            (Filter.sizes_reading h ▸ sizes_target_filters_lt navigation.route link rest)
        let body ← groups root ⟨goal.name, [range]⟩ (Filter.nonEmpty filters)
        let others ← relatedPredicates root site rest
        return .related negated site.path navigation.property quantifier range body :: others
    | kind => reject (.unsupported (.linkKindInFilter kind))
termination_by Link.sizes links
decreasing_by
  · assumption
  · exact sizes_rest_lt ..
end

/-- The groups of an entity's filters. A filter with nothing in it makes no group. -/
def filterGroups (root : Query.Entity) (site : Site) (filters : List Filter) :
    Compile (List Group) :=
  groups root site (Filter.nonEmpty filters)

end FetchOData.Compile
