import FetchOData.Proofs.Alike
import FetchOData.Proofs.NormalForm
import FetchOData.Proofs.Pruning

namespace FetchOData

namespace Compile
open Query OData

theorem navigateAcross_pruned (keep : Bool) (parent : String) (link : Link)
    (sides : List (Schema.Side × Schema.Side)) :
    navigateAcross parent (link.pruned keep) sides = navigateAcross parent link sides := by
  induction sides with
  | nil => simp only [navigateAcross, Link.join_pruned]
  | cons side sides ih =>
    simp only [navigateAcross, ih, Link.join_pruned, Link.links_pruned, Link.prune_eq_map,
      Link.name_pruned]
    rcases link.links with _ | ⟨next, _ | ⟨_, _⟩⟩
    · rfl
    · simp only [List.map_cons, List.map_nil, Link.join_pruned, Link.name_pruned]
    · rfl

/-- How a link is reached does not depend on filters. -/
theorem resolve_pruned (keep : Bool) (parent : String) (link : Link) :
    resolve parent (link.pruned keep) = resolve parent link := by
  simp only [resolve, navigate, navigateAcross_pruned, Link.join_pruned, Link.name_pruned]

theorem target_pruned (keep : Bool) (route : Route) (link : Link) :
    target route (link.pruned keep) = (target route link).pruned keep := by
  unfold target
  rw [Link.links_pruned, Link.prune_eq_map]
  cases route with
  | toMany | toOne => rfl
  | across => rcases link.links with _ | ⟨next, _ | ⟨_, _⟩⟩ <;> rfl

theorem findLink_prune (keep : Bool) (name parent : String) (path : Path) (collection : Bool)
    (links : List Link) :
    findLink name parent path collection (Link.prune keep links) =
      findLink name parent path collection links := by
  match links with
  | [] => rfl
  | link :: rest =>
    rw [Link.prune, findLink, findLink, resolve_pruned]
    congr 1
    funext n
    have rest_eq := findLink_prune keep name parent path collection rest
    have nested_eq (path : Path) (collection : Bool) :=
      findLink_prune keep name (target n.route link).name path collection
        (target n.route link).links
    simp only [target_pruned, Link.name_pruned, Link.links_pruned, Link.isReferencedBy,
      Link.join_pruned, rest_eq, nested_eq]
    rfl
termination_by Link.sizes links
decreasing_by
  · exact sizes_rest_lt ..
  · exact sizes_target_links_lt ..

/-- Of the entity that a query starts from, a condition reads only how its links are joined. -/
theorem condition_pruned (keep : Bool) (root : Query.Entity) :
    condition (root.pruned keep) = condition root := by
  funext site c
  have same : subject (root.pruned keep) site c.entityName = subject root site c.entityName := by
    cases c.entityName with
    | none => rfl
    | some name => simp only [subject, Entity.pruned, findLink_prune]
  simp only [condition, same]

variable {root root' : Query.Entity}

theorem text_related_congr {negated : Bool} {path : Path} {collection range : String}
    {quantifier : Quantifier} {body body' : List Group} (h : Group.texts body = Group.texts body') :
    (Predicate.related negated path collection quantifier range body).text =
      (Predicate.related negated path collection quantifier range body').text := by
  rw [Predicate.text, Predicate.text, h]

theorem texts_single_congr {p p' : Predicate} (h : p.text = p'.text) :
    Group.texts [Group.single p] = Group.texts [Group.single p'] := by
  simp only [Group.texts, Group.single, Group.text?, Predicate.texts_eq_filter, List.map_cons,
    List.map_nil, h]

theorem texts_orPresent_congr {gs gs' : List Group} (h : Group.texts gs = Group.texts gs')
    (path : Path) (key : String) :
    Group.texts (orPresent gs path key) = Group.texts (orPresent gs' path key) := by
  rw [orPresent, orPresent, Group.conjunction?, Group.conjunction?, h]
  split
  · exact h
  · rfl

/-- Void filters are compiled without asking for anything, to groups that are not written. -/
theorem groups_of_allVoid (root : Query.Entity) (site : Site) {fs : List Filter}
    (h : Filter.allVoid fs = true) :
    ∃ gs, groups root site fs = pure gs ∧ Group.texts gs = [] := by
  match fs with
  | [] => exact ⟨[], by rw [groups], rfl⟩
  | ⟨connective, conditions, filters, links⟩ :: fs =>
    simp only [Filter.allVoid, Filter.isVoid, Bool.and_eq_true, List.isEmpty_iff] at h
    obtain ⟨⟨⟨rfl, rfl⟩, hf⟩, hs⟩ := h
    obtain ⟨inner, hi, ti⟩ := groups_of_allVoid root site hf
    obtain ⟨rest, hr, tr⟩ := groups_of_allVoid root site hs
    refine ⟨⟨connective, [], inner⟩ :: rest, ?_, ?_⟩
    · rw [groups, relatedPredicates, hi, hr]
      rfl
    · rw [Group.texts, Group.text?, Predicate.texts, ti, tr]
      rfl
termination_by Filter.sizes fs
decreasing_by
  all_goals simp only [Filter.sizes, Filter.size]; omega

/-- Reading the filters of a link as a step of its own. -/
theorem relatedPredicates_cons {site : Site} {link : Link} {rest : List Link}
    {quantifier : Quantifier} {negated : Bool} (kind : link.join.kind = .related quantifier negated) :
    relatedPredicates root site (link :: rest) = (do
      let range ← freshLambda
      let navigation ← resolve site.entity link
      let goal := target navigation.route link
      let filters ← ofExcept .unsupported (Filter.reading negated goal.filters)
      let body ← groups root ⟨goal.name, [range]⟩ (Filter.nonEmpty filters)
      let others ← relatedPredicates root site rest
      return .related negated site.path navigation.property quantifier range body :: others) := by
  rw [relatedPredicates, kind]
  apply bind_congr
  intro range
  apply bind_congr
  intro n
  dsimp only
  split
  · rename_i reading
    rw [reading]
    rfl
  · rename_i reading
    rw [reading]
    rfl

mutual
/-- Void filters ask for nothing and are not written, so the others are compiled as if they were
alone. -/
theorem groups_prune (hc : condition root' = condition root) (site : Site) (fs : List Filter) :
    Alike (Group.texts · = Group.texts ·) (groups root site fs)
      (groups root' site (Filter.prune fs)) := by
  match fs with
  | [] =>
    rw [Filter.prune, groups, groups]
    exact alike_pure rfl
  | ⟨connective, conditions, filters, links⟩ :: fs =>
    have rest := groups_prune hc site fs
    rw [Filter.prune]
    split
    · rename_i hv
      simp only [Filter.isVoid, Bool.and_eq_true, List.isEmpty_iff] at hv
      obtain ⟨⟨rfl, rfl⟩, hf⟩ := hv
      obtain ⟨inner, hi, ti⟩ := groups_of_allVoid root site hf
      rw [groups, relatedPredicates, hi]
      apply rest.map_left
      intro others others' ho
      -- The group of the void filter has no items, so it is not among the texts.
      change Group.texts (⟨connective, [], inner⟩ :: others) = Group.texts others'
      rw [Group.texts, Group.text?, Predicate.texts, ti, ho]
      rfl
    · rw [Filter.pruned, groups, groups, hc]
      apply alike_bind
      intro own
      apply (relatedPredicates_prune hc site links).bind
      intro related related' hr
      apply (groups_prune hc site filters).bind
      intro inner inner' hi
      apply rest.bind
      intro others others' ho
      apply alike_pure
      simp only [Group.texts, Group.text?, Predicate.texts_append, hr, hi, ho]
termination_by Filter.sizes fs
decreasing_by
  all_goals simp only [Filter.sizes, Filter.size]; omega
theorem relatedPredicates_prune (hc : condition root' = condition root) (site : Site)
    (ls : List Link) :
    Alike (Predicate.texts · = Predicate.texts ·) (relatedPredicates root site ls)
      (relatedPredicates root' site (Link.prune false ls)) := by
  match ls with
  | [] =>
    rw [Link.prune, relatedPredicates, relatedPredicates]
    exact alike_pure rfl
  | link :: rest =>
    rw [Link.prune]
    cases kind : link.join.kind with
    | related quantifier negated =>
      rw [relatedPredicates_cons kind, relatedPredicates_cons ((link.join_pruned _).symm ▸ kind),
        resolve_pruned]
      apply alike_bind
      intro range
      apply alike_bind
      intro n
      dsimp only
      rw [target_pruned, Link.name_pruned, Link.filters_pruned, Bool.false_and,
        if_neg Bool.false_ne_true, Filter.reading_prune]
      cases reading : Filter.reading negated (target n.route link).filters with
      | error cause => exact alike_reject _
      | ok filters =>
        have : Filter.sizes (Filter.nonEmpty filters) < Link.sizes (link :: rest) :=
          Nat.lt_of_le_of_lt (Filter.sizes_nonEmpty_le filters)
            (Filter.sizes_reading reading ▸ sizes_target_filters_lt n.route link rest)
        have body := groups_prune hc ⟨(target n.route link).name, [range]⟩ (Filter.nonEmpty filters)
        rw [Filter.prune_nonEmpty, ← Filter.nonEmpty_prune] at body
        simp only [Except.map, ofExcept, pure_bind]
        apply body.bind
        intro gs gs' hg
        apply (relatedPredicates_prune hc site rest).bind
        intro others others' ho
        apply alike_pure
        rw [Predicate.texts, Predicate.texts, text_related_congr hg, ho]
    | inner | outer =>
      rw [relatedPredicates, relatedPredicates, Link.join_pruned, kind]
      exact alike_reject _
termination_by Link.sizes ls
decreasing_by
  · assumption
  · exact sizes_rest_lt ..
end

theorem filterGroups_prune (hc : condition root' = condition root) (site : Site)
    (fs : List Filter) :
    Alike (Group.texts · = Group.texts ·) (filterGroups root site fs)
      (filterGroups root' site (Filter.prune fs)) := by
  have h := groups_prune hc site (Filter.nonEmpty fs)
  rw [Filter.prune_nonEmpty, ← Filter.nonEmpty_prune] at h
  exact h

theorem filterGroups_pruned (hc : condition root' = condition root) (site : Site) (keep : Bool)
    (link : Link) :
    Alike (Group.texts · = Group.texts ·) (filterGroups root site link.filters)
      (filterGroups root' site (link.pruned keep).filters) := by
  rw [Link.filters_pruned]
  split
  · rename_i h
    simp only [Link.onlyVoid, Bool.and_eq_true] at h
    have void := Filter.allVoid_nonEmpty h.2.2
    obtain ⟨gs, hg, tg⟩ := groups_of_allVoid root site void
    obtain ⟨gs', hg', tg'⟩ := groups_of_allVoid root' site void
    rw [filterGroups, filterGroups, hg, hg']
    exact alike_pure (tg.trans tg'.symm)
  · exact filterGroups_prune hc site link.filters

theorem rejectOrders_pruned (keep : Bool) (link goal : Link) :
    rejectOrders (link.pruned keep) (goal.pruned keep) = rejectOrders link goal := by
  simp only [rejectOrders, Link.selection_pruned, Link.join_pruned]

/-- A link is expanded whether or not there are void filters beside what else it brings. -/
theorem expands_prune (hc : condition root' = condition root) (parent : String)
    (ls : List Link) :
    Alike (Expand.texts · = Expand.texts ·) (expands root parent ls)
      (expands root' parent (Link.prune true ls)) := by
  match ls with
  | [] =>
    rw [Link.prune, expands, expands]
    exact alike_pure rfl
  | link :: ls =>
    have rest := expands_prune hc parent ls
    rw [Link.prune, expands, expands, Link.join_pruned, Link.hasContent_pruned]
    split
    · exact alike_reject _
    · split
      · rw [resolve_pruned]
        apply alike_bind
        intro n
        dsimp only
        rw [target_pruned, rejectOrders_pruned, Link.name_pruned, Link.selection_pruned,
          Link.links_pruned]
        apply alike_bind
        intro _
        apply alike_bind
        intro selected
        have nested := expands_prune hc (target n.route link).name (target n.route link).links
        -- What follows the filter is the same whether the link has one of its own or not.
        have expanded (filter filter' : List Group) (hf : Group.texts filter = Group.texts filter') :
            Alike (Expand.texts · = Expand.texts ·)
              (do
                let nested ← expands root (target n.route link).name (target n.route link).links
                return ⟨n.property, selected, nested, filter⟩ :: (← expands root parent ls))
              (do
                let nested ← expands root' (target n.route link).name
                  (Link.prune true (target n.route link).links)
                return ⟨n.property, selected, nested, filter'⟩ ::
                  (← expands root' parent (Link.prune true ls))) := by
          apply nested.bind
          intro inner inner' hi
          apply rest.bind
          intro others others' ho
          apply alike_pure
          simp only [Expand.texts, Expand.text, rowOptions, filterOption?, Group.conjunction?, hf,
            hi, ho]
        split
        · exact (filterGroups_pruned hc _ true (target n.route link)).bind expanded
        · exact expanded [] [] rfl
      · exact rest
termination_by Link.sizes ls
decreasing_by
  · exact sizes_rest_lt ..
  · exact sizes_target_links_lt ..

theorem innerJoins_prune (hc : condition root' = condition root) (parent : String) (path : Path)
    (ls : List Link) :
    Alike (Group.texts · = Group.texts ·) (innerJoins root parent path ls)
      (innerJoins root' parent path (Link.prune true ls)) := by
  match ls with
  | [] =>
    rw [Link.prune, innerJoins, innerJoins]
    exact alike_pure rfl
  | link :: ls =>
    have rest := innerJoins_prune hc parent path ls
    rw [Link.prune, innerJoins, innerJoins, Link.join_pruned]
    split
    · rw [resolve_pruned]
      apply alike_bind
      intro n
      dsimp only
      rw [target_pruned, Link.name_pruned, Link.links_pruned]
      apply alike_bind
      intro record
      have nested (path : Path) :=
        innerJoins_prune hc (target n.route link).name path (target n.route link).links
      split
      · apply alike_bind
        intro range
        apply (filterGroups_pruned hc _ true (target n.route link)).bind
        intro own own' hw
        apply (nested [range]).bind
        intro inner inner' hi
        apply rest.bind
        intro others others' ho
        apply alike_pure
        -- Whether a test for the key takes the place of the filters is told from their texts.
        have body : Group.texts (orPresent own [range] record.primaryKey ++ inner) =
            Group.texts (orPresent own' [range] record.primaryKey ++ inner') := by
          rw [Group.texts_append, Group.texts_append, texts_orPresent_congr hw, hi]
        change Group.texts ([Group.single _] ++ others) = Group.texts ([Group.single _] ++ others')
        rw [Group.texts_append, Group.texts_append, ho]
        exact congrArg (· ++ _) (texts_single_congr (text_related_congr body))
      · apply (filterGroups_pruned hc _ true (target n.route link)).bind
        intro own own' hw
        have bare : (Group.conjunction? own).isNone = (Group.conjunction? own').isNone := by
          rw [Group.conjunction?, Group.conjunction?, hw]
        rw [bare]
        split
        · exact alike_reject _
        · apply (nested (path ++ [n.property])).bind
          intro inner inner' hi
          apply rest.bind
          intro others others' ho
          apply alike_pure
          change Group.texts (orPresent own _ _ ++ inner ++ others) =
            Group.texts (orPresent own' _ _ ++ inner' ++ others')
          simp only [Group.texts_append, texts_orPresent_congr hw, hi, ho]
    · exact rest
termination_by Link.sizes ls
decreasing_by
  · exact sizes_rest_lt ..
  · exact sizes_target_links_lt ..

theorem url_congr (r : Request) {es es' : List Expand} {gs gs' : List Group}
    (he : Expand.texts es = Expand.texts es') (hg : Group.texts gs = Group.texts gs')
    (base : String) :
    ({ r with target := { r.target with expand := es, filter := gs } } : Request).url base =
      ({ r with target := { r.target with expand := es', filter := gs' } } : Request).url base := by
  have options : ({ r with target := { r.target with expand := es, filter := gs } } :
        Request).options =
      ({ r with target := { r.target with expand := es', filter := gs' } } : Request).options := by
    simp only [Request.options, Request.isAggregate, Request.apply, Request.summary,
      Request.topOption?, Expand.options, rowOptions, filterOption?, Group.conjunction?, he, hg]
  rw [Request.url, Request.url, options]

theorem rootRequest_pruned (fetch : Fetch) (root : Query.Entity) (base : String) :
    Alike (fun r r' => r.url base = r'.url base) (rootRequest fetch root)
      (rootRequest (fetch.pruned true) (root.pruned true)) := by
  have hc := condition_pruned true root
  have outline_eq (record : Schema.Entity) (collection : String) :
      outline (fetch.pruned true) (root.pruned true) record collection =
        outline fetch root record collection := rfl
  rw [rootRequest, rootRequest]
  apply alike_bind
  intro record
  apply alike_bind
  intro collection
  rw [outline_eq]
  apply alike_bind
  intro request
  apply (filterGroups_prune hc ⟨root.name, []⟩ root.filters).bind
  intro filter filter' hf
  apply (expands_prune hc root.name root.links).bind
  intro expand expand' he
  apply (innerJoins_prune hc root.name [] root.links).bind
  intro joins joins' hj
  apply alike_pure
  apply url_congr request he
  rw [Group.texts_append, Group.texts_append, hf, hj]

theorem admissible_pruned (keep : Bool) (fetch : Fetch) :
    admissible (fetch.pruned keep) = (admissible fetch).map (Entity.pruned keep) := by
  have page : (fetch.pruned keep).page = fetch.page := rfl
  have datasource : (fetch.pruned keep).datasource = fetch.datasource := rfl
  have root : (fetch.pruned keep).entity = fetch.entity.map (Entity.pruned keep) := rfl
  simp only [admissible, page, datasource, root, bind, Except.bind, pure, Except.pure, throw,
    throwThe, MonadExceptOf.throw]
  cases fetch.entity <;> grind [Except.map]

theorem request_pruned (fetch : Fetch) (base : String) :
    (request fetch).Alike (fun r r' => r.url base = r'.url base) (request (fetch.pruned true)) := by
  rw [request, request, admissible_pruned]
  cases admissible fetch with
  | error fault => exact .fail
  | ok root => exact (rootRequest_pruned fetch root base).run' {}

end Compile

namespace WebQuery
open Query

/-- Void filters can be left out of a query, except where they are all that a link brings. Where
that is so of no link, they can be left out everywhere. -/
theorem void_filters_left_out (source : Source σ) (base : String) (fetch : Fetch) (s : σ) :
    ofFetch source base fetch s = ofFetch source base (fetch.pruned true) s ∧
      ((∀ root, fetch.entity = some root →
          ∀ link : Link, link.Below root.links → link.onlyVoid = true → link.filters = []) →
        ofFetch source base fetch s = ofFetch source base (fetch.pruned false) s) := by
  have kept : ofFetch source base fetch s = ofFetch source base (fetch.pruned true) s :=
    ofFetch_eq_of_alike (Compile.request_pruned fetch base) rfl source s
  refine ⟨kept, ?_⟩
  intro bare
  have same : fetch.pruned true = fetch.pruned false := by
    unfold Fetch.pruned
    cases start : fetch.entity with
    | none => rfl
    | some root =>
      simp only [Option.map_some, Entity.pruned, Link.prune_true_eq_prune_false (bare root start)]
  rw [kept, same]

def accountsBesideVoid (columns : List Column) : Fetch :=
  { entity := some {
      name := "account",
      filters := [{ connective := .or, filters := [{}] }],
      links := [{
        join := { entity := "contact", fromColumn := "contactid", toColumn := "primarycontactid",
                  kind := .outer },
        selection := { columns },
        filters := [{}] }] } }

/-- Where a link brings a column as well, its void filter can be left out. -/
theorem void_filters_left_out_firstname :
    ofFetch Catalog.source "org" (accountsBesideVoid [{ name := "firstname" }]) Catalog.sample =
      ofFetch Catalog.source "org" ((accountsBesideVoid [{ name := "firstname" }]).pruned false)
        Catalog.sample := by
  apply (void_filters_left_out Catalog.source "org" _ Catalog.sample).2
  intro root start link below void
  cases start
  cases below with
  | here member =>
    cases List.mem_singleton.mp member
    cases void
  | deeper member inner =>
    cases List.mem_singleton.mp member
    exact absurd rfl inner.links_ne_nil

/-- A link that brings a void filter and nothing else is expanded, and is not without it. -/
theorem void_filter_expands_link :
    (ofFetch Catalog.source "org" (accountsBesideVoid []) Catalog.sample).1 =
        .ok ⟨"org/accounts?$expand=primarycontactid", []⟩ ∧
      (ofFetch Catalog.source "org" ((accountsBesideVoid []).pruned false) Catalog.sample).1 =
        .ok ⟨"org/accounts", []⟩ := by
  decide +kernel

end WebQuery

end FetchOData
