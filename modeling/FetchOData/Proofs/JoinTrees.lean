import FetchOData.Proofs.JoinBinders
import FetchOData.Proofs.NamedLinks
import FetchOData.Proofs.NormalForm
import FetchOData.Proofs.QueryOptions
import FetchOData.Proofs.RangeVariables

namespace FetchOData

structure JoinTree where
  property : String
  joins : List JoinTree

mutual
def JoinTree.size : JoinTree → Nat
  | ⟨_, joins⟩ => 1 + JoinTree.sizes joins
def JoinTree.sizes : List JoinTree → Nat
  | [] => 0
  | tree :: trees => tree.size + JoinTree.sizes trees
end

theorem JoinTree.sizes_append (ts us : List JoinTree) :
    JoinTree.sizes (ts ++ us) = JoinTree.sizes ts + JoinTree.sizes us := by
  induction ts with
  | nil => simp [JoinTree.sizes]
  | cons t ts ih => simp [JoinTree.sizes, ih, Nat.add_assoc]

namespace Compile
open Query OData Text

/-- The inner joins to many rows among the links and below them. A join to one row stands for what
is below it, and a link that is not an inner one for nothing. -/
def joinTrees (t : Snapshot) (parent : String) (links : List Link) : List JoinTree :=
  match links with
  | [] => []
  | link :: rest =>
    (if link.join.kind = .inner then
      match way t parent link with
      | .ok n =>
        let below := joinTrees t (target n.route link).name (target n.route link).links
        if n.isCollection then [⟨n.property, below⟩] else below
      | .error _ => []
    else []) ++ joinTrees t parent rest
termination_by Link.sizes links
decreasing_by
  · exact sizes_target_links_lt ..
  · exact sizes_rest_lt ..

/-- The joins stand among the items of a conjunction, numbered from `k` on in the order in which
they are met. The body of each is a conjunction in which the joins below it stand. -/
inductive Stands : List JoinTree → Nat → List String → Prop where
  | nil : Stands [] k items
  | skip (rest : Stands trees k items) : Stands trees k (item :: items)
  | join {path : Path} (segments : ∀ segment ∈ path, ∀ c ∈ segment.toList, isNameChar c = true)
      (inside : Stands joins (k + 1) body) (closed : Closed (" and ".intercalate body).toList)
      (rest : Stands trees (k + 1 + JoinTree.sizes joins) items) :
      Stands (⟨property, joins⟩ :: trees) k
        (("(" ++ path.text ++ property ++ "/any(o" ++ Number.integerText k ++ ":" ++
          " and ".intercalate body ++ "))") :: items)

theorem Stands.skips {trees : List JoinTree} {k : Nat} {items : List String}
    (h : Stands trees k items) (others : List String) : Stands trees k (others ++ items) := by
  induction others with
  | nil => exact h
  | cons item others ih => exact .skip ih

theorem Stands.append {ts us : List JoinTree} {k : Nat} {xs ys : List String}
    (h : Stands ts k xs) (h' : Stands us (k + JoinTree.sizes ts) ys) :
    Stands (ts ++ us) k (xs ++ ys) := by
  induction h with
  | nil => exact Stands.skips (by simpa [JoinTree.sizes] using h') _
  | skip _ ih => exact .skip (ih h')
  | join segments inside closed rest _ ih =>
    refine .join segments inside closed (ih ?_)
    simpa [JoinTree.sizes, JoinTree.size, Nat.add_assoc, Nat.add_comm, Nat.add_left_comm] using h'

/-- Each join that stands somewhere binds its variable there. -/
theorem Stands.binds {trees : List JoinTree} {k : Nat} {items : List String}
    (h : Stands trees k items) {n : Nat} (low : k ≤ n) (high : n < k + JoinTree.sizes trees) :
    ∃ item ∈ items, joinBinder n <:+: item.toList := by
  induction h with
  | nil =>
    simp only [JoinTree.sizes] at high
    omega
  | skip _ ih =>
    obtain ⟨item, hi, binds⟩ := ih low high
    exact ⟨item, List.mem_cons_of_mem _ hi, binds⟩
  | @join joins k body trees items property path segments inside closed rest ih₁ ih₂ =>
    simp only [JoinTree.sizes, JoinTree.size] at high
    -- The number is that of the join itself, of one below it, or of one after it.
    by_cases here : n = k
    · subst here
      refine ⟨_, List.mem_cons_self, ("(" ++ path.text ++ property).toList,
        (" and ".intercalate body ++ "))").toList, ?_⟩
      simp [joinBinder, binder, Number.integerText]
    · by_cases below : n < k + 1 + JoinTree.sizes joins
      · obtain ⟨item, hi, binds⟩ := ih₁ (by omega) below
        refine ⟨_, List.mem_cons_self, (binds.trans (infix_intercalate " and " hi)).trans ?_⟩
        refine ⟨("(" ++ path.text ++ property ++ "/any(o" ++ Number.integerText k ++ ":").toList,
          "))".toList, ?_⟩
        simp
      · obtain ⟨item, hi, binds⟩ := ih₂ (by omega) (by omega)
        exact ⟨item, List.mem_cons_of_mem _ hi, binds⟩

section Counting

variable {t : Snapshot} {root : Query.Entity}

mutual
/-- Filters bind no variable of a join. -/
theorem GroupsOf.joins_eq {site : Site} {v v' : Variables} {fs : List Filter} {gs : List Group}
    (h : GroupsOf t root site v fs gs v') : v'.joins = v.joins := by
  match h with
  | .nil => rfl
  | .cons _ related nested rest =>
    rw [GroupsOf.joins_eq rest, GroupsOf.joins_eq nested, RelatedOf.joins_eq related]
theorem RelatedOf.joins_eq {site : Site} {v v' : Variables} {ls : List Link} {ps : List Predicate}
    (h : RelatedOf t root site v ls ps v') : v'.joins = v.joins := by
  match h with
  | .nil => rfl
  | .cons _ _ _ body rest =>
    rw [RelatedOf.joins_eq rest, GroupsOf.joins_eq body]
    rfl
end

theorem InlineOf.joins_eq {link : Link} {n : Navigation} {v v' : Variables} {gs : List Group}
    (h : InlineOf t root link n v gs v') : v'.joins = v.joins := by
  unfold InlineOf at h
  split at h
  · exact h.joins_eq
  · rw [h.2]

theorem ExpandsOf.joins_eq {parent : String} {v v' : Variables} {ls : List Link} {es : List Expand}
    (h : ExpandsOf t root parent v ls es v') : v'.joins = v.joins := by
  induction h with
  | nil => rfl
  | skip _ _ _ ih => exact ih
  | expand _ _ _ _ _ filter _ _ ih₁ ih₂ => rw [ih₂, ih₁, filter.joins_eq]

theorem joinTrees_of_other {parent : String} {link : Link} {links : List Link}
    (kind : link.join.kind ≠ .inner) :
    joinTrees t parent (link :: links) = joinTrees t parent links := by
  rw [joinTrees, if_neg kind, List.nil_append]

theorem joinTrees_of_resolves {parent : String} {link : Link} {links : List Link} {n : Navigation}
    (kind : link.join.kind = .inner) (resolves : Resolves t parent link n) :
    joinTrees t parent (link :: links) =
      (if n.isCollection then
        [⟨n.property, joinTrees t (target n.route link).name (target n.route link).links⟩]
      else joinTrees t (target n.route link).name (target n.route link).links) ++
        joinTrees t parent links := by
  rw [joinTrees, if_pos kind, way_eq_ok_iff.mpr resolves]

/-- As many variables are handed out as there are joins. -/
theorem JoinsOf.joins_eq {parent : String} {path : Path} {v v' : Variables} {ls : List Link}
    {gs : List Group} (h : JoinsOf t root parent path v ls gs v') :
    v'.joins = v.joins + JoinTree.sizes (joinTrees t parent ls) := by
  induction h with
  | nil => simp [joinTrees, JoinTree.sizes]
  | other kind _ ih => rw [joinTrees_of_other kind, ih]
  | @toMany _ _ _ _ _ _ _ _ _ _ _ _ v kind resolves many _ own _ _ ih₁ ih₂ =>
    have counted : v.afterJoin.joins = v.joins + 1 := rfl
    rw [joinTrees_of_resolves kind resolves, if_pos many, JoinTree.sizes_append, JoinTree.sizes,
      JoinTree.size, JoinTree.sizes, ih₂, ih₁, own.joins_eq, counted]
    omega
  | toOne kind resolves one _ own _ _ _ ih₁ ih₂ =>
    rw [joinTrees_of_resolves kind resolves, one, if_neg Bool.false_ne_true, JoinTree.sizes_append,
      ih₂, ih₁, own.joins_eq, Nat.add_assoc]

end Counting

theorem Group.texts_single {p : Predicate} (h : p.text ≠ "") (gs : List Group) :
    Group.texts (.single p :: gs) = ("(" ++ p.text ++ ")") :: Group.texts gs := by
  have one : Predicate.texts [p] = [p.text] := by
    rw [Predicate.texts, if_neg (by simpa using h), Predicate.texts]
  rw [Group.texts, Group.single, Group.text?, one, Group.texts]
  rfl

/-- What an inner join asks for is never left out. -/
theorem texts_orPresent_ne (gs : List Group) (path : Path) (key : String) :
    Group.texts (orPresent gs path key) ≠ [] := by
  unfold orPresent
  split
  · rename_i written
    intro empty
    simp [Group.conjunction?, conjunction?, empty] at written
  · rw [present, Group.texts_single isNull_text_ne]
    exact List.cons_ne_nil _ _

theorem text_join {path : Path} {property range : String} {body : List Group}
    (h : Group.texts body ≠ []) :
    (Predicate.related false path property .any range body).text =
      path.text ++ property ++ "/any(" ++ range ++ ":" ++ " and ".intercalate (Group.texts body) ++
        ")" := by
  rw [Predicate.text, conjunction?_of_ne_nil h]
  simp [negation, Quantifier.word, String.append_assoc]

theorem item_join {path property body : String} (v : Variables) :
    "(" ++ (path ++ property ++ "/any(" ++ v.join ++ ":" ++ body ++ ")") ++ ")" =
      "(" ++ path ++ property ++ "/any(o" ++ Number.integerText (v.joins + 1 : Nat) ++ ":" ++
        body ++ "))" :=
  String.toList_inj.mp (by simp [Variables.join])

section Standing

variable {t : Snapshot} {root : Query.Entity} {L : Lexicon}

theorem JoinsOf.stands (columnless : ∀ n, ¬ L.column n) {scope : List String} {parent : String}
    {path : Path} {v v' : Variables} {ls : List Link} {gs : List Group}
    (h : JoinsOf t root parent path v ls gs v') (hs : ∀ n ∈ scope, IsVariable n.toList)
    (spelled : ∀ g ∈ gs, g.Spelled L scope) :
    Stands (joinTrees t parent ls) (v.joins + 1) (Group.texts gs) := by
  induction h generalizing scope with
  | nil =>
    rw [joinTrees]
    exact .nil
  | other kind _ ih =>
    rw [joinTrees_of_other kind]
    exact ih hs spelled
  | @toMany _ _ n _ _ _ _ _ _ _ _ _ v kind resolves many _ own nested _ ih₁ ih₂ =>
    obtain ⟨first, others⟩ := List.forall_mem_cons.mp spelled
    obtain ⟨predicates, _⟩ := first
    cases predicates _ List.mem_cons_self with
    | related segments _ fits inside =>
      have hs' : ∀ n ∈ v.join :: scope, IsVariable n.toList := List.forall_mem_cons.mpr ⟨fits, hs⟩
      obtain ⟨_, phrase, _⟩ := (Group.wordings columnless hs' inside).connected .and
      have below := ih₁ hs' fun g hg => inside g (List.mem_append_right _ hg)
      have beside := ih₂ hs others
      rw [own.joins_eq] at below
      rw [nested.joins_eq, own.joins_eq] at beside
      rw [joinTrees_of_resolves kind resolves, if_pos many, Group.texts_single related_text_ne,
        text_join (by simp [Group.texts_append, texts_orPresent_ne]), item_join,
        List.singleton_append]
      refine .join (fun _ hm => isNameChar_of_segment hs (segments _ hm)) ?_ phrase.closed ?_
      · rw [Group.texts_append]
        exact below.skips _
      · rw [Nat.add_right_comm]
        exact beside
  | toOne kind resolves one _ own _ nested _ ih₁ ih₂ =>
    have below := ih₁ hs fun g hg => spelled g (by simp [hg])
    have beside := ih₂ hs fun g hg => spelled g (by simp [hg])
    rw [own.joins_eq] at below
    rw [nested.joins_eq, own.joins_eq, Nat.add_right_comm] at beside
    rw [joinTrees_of_resolves kind resolves, one, if_neg Bool.false_ne_true, Group.texts_append,
      Group.texts_append, List.append_assoc]
    exact (below.append beside).skips _

end Standing

variable {t : Snapshot} {root : Query.Entity} {fetch : Fetch} {r : Request}

theorem RequestOf.fresh_ranges (h : RequestOf t fetch root r) :
    ∃ v, ({} : Variables).Fresh r.target.ranges v ∧
      v.joins = JoinTree.sizes (joinTrees t root.name root.links) := by
  obtain ⟨_, _, o, filter, v₁, expand, v₂, joins, v₃, _, _, _, own, expanded, joined, rfl⟩ :=
    h.parts
  have all := (own.fresh.append expanded.fresh).append joined.fresh
  refine ⟨v₃, ?_, ?_⟩
  · rw [Expand.ranges, Group.rangesAll_append, ← List.append_assoc]
    exact all.perm (List.perm_append_comm.append_right _)
  · rw [joined.joins_eq, expanded.joins_eq, own.joins_eq, Nat.zero_add]

/-- The variables of joins are numbered from one up to the number of joins. -/
theorem RequestOf.count_range_le (h : RequestOf t fetch root r) (n : Nat) :
    (r.target.ranges.map String.toList).count ('o' :: Number.digits n) ≤
      if 1 ≤ n ∧ n ≤ JoinTree.sizes (joinTrees t root.name root.links) then 1 else 0 := by
  obtain ⟨v, fresh, counted⟩ := h.fresh_ranges
  have distinct : (r.target.ranges.map String.toList).Nodup :=
    List.Nodup.map (fun _ _ => String.toList_inj.mp) fresh.nodup
  split
  · exact List.nodup_iff_count_le_one.mp distinct _
  · rename_i outside
    refine Nat.le_of_eq (List.count_eq_zero.mpr fun hm => outside ?_)
    obtain ⟨range, member, text⟩ := List.mem_map.mp hm
    rcases fresh.between range member with ⟨k, _, _, hk⟩ | ⟨k, low, high, hk⟩
    · exact absurd (List.cons.inj (text.symm.trans hk)).1 (by decide)
    · rw [Number.digits_inj (List.cons.inj (text.symm.trans hk)).2, ← counted]
      exact ⟨low, high⟩

/-- Every binder in the text is that of a variable. -/
theorem RequestOf.occurrences_le (h : RequestOf t fetch root r) (named : t.Named IsIdentifier)
    (columns : ∀ L, root.Each (Condition.Keeps L)) (spelled : r.Spelled unbinding) (n : Nat) :
    occurrences (joinBinder n) r.relative.toList ≤
      (r.target.ranges.map String.toList).count ('o' :: Number.digits n) := by
  cases aggregate : fetch.aggregate with
  | true => exact Request.occurrences_relative_le (h.isAggregate_of_aggregate aggregate) spelled n
  | false =>
    have plain : fetch.Keeps identifiers := by
      refine ⟨fun other ho => ?_, fun _ _ summary => by simp [aggregate] at summary⟩
      cases ho.symm.trans h.entity_eq
      exact columns identifiers
    exact (Request.wording_relative (fun _ => not_false) (fun _ => id)
      (h.spelled named plain)).occurrences_le n

theorem RequestOf.stands {L : Lexicon} (columnless : ∀ n, ¬ L.column n)
    (h : RequestOf t fetch root r) (spelled : r.Spelled L) :
    Stands (joinTrees t root.name root.links) 1 (Group.texts r.target.filter) := by
  obtain ⟨_, _, o, filter, v₁, expand, v₂, joins, v₃, _, _, _, own, expanded, joined, rfl⟩ :=
    h.parts
  cases spelled.target with
  | mk _ _ _ filtered =>
    have standing := joined.stands columnless (List.forall_mem_nil _) fun g hg =>
      filtered g (List.mem_append_right _ hg)
    rw [expanded.joins_eq, own.joins_eq] at standing
    rw [Group.texts_append]
    exact standing.skips _

end Compile

namespace WebQuery
open Query OData Compile Text

/-- In a URL that is converted against a schema with identifiers as names, without columns to
compare with and without binders in the titles of aggregates, each inner join to many rows that has
only inner links above it is written once. Its number is its place in a walk through these joins,
depth first. It stands in the body of the next such join above it, or else in the filter of the
query. -/
theorem inner_joins_bound_once_nested {source : Source σ} {t : Snapshot} {s s' : σ} {base : String}
    {fetch : Fetch} {root : Query.Entity} {q : WebQuery} (stable : source.Shows t s)
    (named : t.Named IsIdentifier) (start : fetch.entity = some root)
    (columnless : root.Each fun c => c.comparedColumn? = none)
    (titles : fetch.aggregate = true → ∀ c ∈ root.selection.columns, ∀ a, c.title? = some a →
      ∀ n, occurrences (joinBinder n) a.toList = 0)
    (converts : ofFetch source base fetch s = (.ok q, s')) :
    ∃ rest items, q.url = Request.trimBase base ++ "/" ++ rest ∧
      (∀ n, occurrences (joinBinder n) rest.toList =
        if 1 ≤ n ∧ n ≤ JoinTree.sizes (joinTrees t root.name root.links) then 1 else 0) ∧
      (∀ n, occurrences (joinBinder n) q.url.toList =
        occurrences (joinBinder n) (Request.trimBase base).toList +
          occurrences (joinBinder n) rest.toList) ∧
      Stands (joinTrees t root.name root.links) 1 items ∧
      (items ≠ [] → Request.FiltersBy rest items) := by
  obtain ⟨r, hr, rfl⟩ := request_of_converts stable converts
  obtain ⟨root', h⟩ := requestOf_of_answer hr
  cases h.entity_eq.symm.trans start
  have columns (L : Lexicon) : root.Each (Condition.Keeps L) :=
    columnless.mono fun c hc n hn => by
      rw [hc] at hn
      cases hn
  have keeps : fetch.Keeps unbinding := by
    refine ⟨fun other ho => ?_, fun other ho => ?_⟩
    · cases ho.symm.trans start
      exact columns unbinding
    · cases ho.symm.trans start
      exact titles
  have spelled : r.Spelled unbinding := h.spelled named keeps
  have standing := h.stands (fun _ => not_false) spelled
  have property : IsIdentifier r.target.property := by
    cases spelled.target with
    | mk property _ _ _ => exact property
  refine ⟨r.relative, Group.texts r.target.filter, r.url_eq base, fun n => ?_,
    Request.occurrences_url property base, standing, Request.filtersBy_relative⟩
  -- No more binders than variables, which differ, and one at least where a join stands.
  have most := (h.occurrences_le named columns spelled n).trans (h.count_range_le n)
  split
  · rename_i joined
    rw [if_pos joined] at most
    obtain ⟨item, member, binds⟩ := standing.binds joined.1 (by omega)
    have written := Request.filtersBy_relative (List.ne_nil_of_mem member)
    have least := occurrences_pos (List.cons_ne_nil _ _) (binds.trans (written.contains member))
    exact Nat.le_antisymm most least
  · rename_i unjoined
    rw [if_neg unjoined] at most
    exact Nat.le_zero.mp most

def linkedAccounts : Query.Entity :=
  { name := "account",
    links := [
      { join := { entity := "contact", fromColumn := "parentcustomerid", toColumn := "accountid" },
        links := [{
          join := { entity := "account", fromColumn := "primarycontactid",
                    toColumn := "contactid" } }] },
      { join := { entity := "accountleads", fromColumn := "accountid", toColumn := "accountid" },
        links := [{
          join := { entity := "lead", fromColumn := "leadid", toColumn := "leadid" } }] }] }

/-- The contacts come first, the accounts in which they are primary next, in the body of the first,
and the leads last. -/
theorem inner_joins_bound_once_nested_linkedAccounts :
    joinTrees Catalog.sample.snapshot "account" linkedAccounts.links =
        [⟨"contact_customer_accounts", [⟨"account_primarycontact", []⟩]⟩,
          ⟨"accountleads_association", []⟩] ∧
      ∃ q s', ofFetch Catalog.source "org" { entity := some linkedAccounts } Catalog.sample =
          (.ok q, s') ∧
        q.url = "org/accounts?$expand=contact_customer_accounts,accountleads_association" ++
          "&$filter=(contact_customer_accounts/any(o1:(o1/contactid ne null) and " ++
          "(o1/account_primarycontact/any(o2:(o2/accountid ne null))))) and " ++
          "(accountleads_association/any(o3:(o3/leadid ne null)))" ∧
        (∀ n ∈ [1, 2, 3], occurrences (joinBinder n) q.url.toList = 1) ∧
        occurrences (joinBinder 4) q.url.toList = 0 ∧
        ∃ rest items, q.url = "org" ++ "/" ++ rest ∧
          Stands (joinTrees Catalog.sample.snapshot "account" linkedAccounts.links) 1 items ∧
          Request.FiltersBy rest items := by
  have converts : ofFetch Catalog.source "org" { entity := some linkedAccounts } Catalog.sample =
      (.ok ⟨"org/accounts?$expand=contact_customer_accounts,accountleads_association" ++
        "&$filter=(contact_customer_accounts/any(o1:(o1/contactid ne null) and " ++
        "(o1/account_primarycontact/any(o2:(o2/accountid ne null))))) and " ++
        "(accountleads_association/any(o3:(o3/leadid ne null)))", []⟩, _) :=
    Prod.ext (by decide +kernel) rfl
  have trees : joinTrees Catalog.sample.snapshot "account" linkedAccounts.links =
      [⟨"contact_customer_accounts", [⟨"account_primarycontact", []⟩]⟩,
        ⟨"accountleads_association", []⟩] := by
    with_unfolding_all rfl
  have named : Catalog.sample.snapshot.Named IsIdentifier :=
    Catalog.named_snapshot (by decide +kernel)
  have bare {link : Link} (unfiltered : link.filters = [])
      (links : ∀ m ∈ link.links, m.Each fun c => c.comparedColumn? = none) :
      link.Each fun c => c.comparedColumn? = none :=
    .mk (unfiltered ▸ List.forall_mem_nil _) links
  have each : linkedAccounts.Each fun c => c.comparedColumn? = none :=
    ⟨List.forall_mem_nil _, List.forall_mem_cons.mpr
      ⟨bare rfl (List.forall_mem_singleton.mpr (bare rfl (List.forall_mem_nil _))),
        List.forall_mem_singleton.mpr
          (bare rfl (List.forall_mem_singleton.mpr (bare rfl (List.forall_mem_nil _))))⟩⟩
  obtain ⟨rest, items, split, counts, whole, standing, filters⟩ :=
    inner_joins_bound_once_nested (Catalog.shows _) named rfl each (by rintro ⟨⟩) converts
  have base : Request.trimBase "org" = "org" := by decide +kernel
  have three : JoinTree.sizes
      (joinTrees Catalog.sample.snapshot linkedAccounts.name linkedAccounts.links) = 3 :=
    congrArg JoinTree.sizes trees
  rw [base] at split whole
  rw [three] at counts
  have plain (n : Nat) : occurrences (joinBinder n) "org".toList = 0 :=
    occurrences_joinBinder_of_not_mem (by decide)
  have count (n : Nat) : occurrences (joinBinder n) _ = if 1 ≤ n ∧ n ≤ 3 then 1 else 0 :=
    (whole n).trans (by rw [plain, counts, Nat.zero_add])
  refine ⟨trees, _, _, converts, rfl, ?_, ?_, rest, items, split, standing, filters ?_⟩
  · have small : ∀ n ∈ [1, 2, 3], (if 1 ≤ n ∧ n ≤ 3 then 1 else 0) = 1 := by decide
    exact fun n hn => (count n).trans (small n hn)
  · exact count 4
  · rintro rfl
    obtain ⟨_, member, _⟩ := standing.binds (Nat.le_refl 1) (by rw [three]; decide)
    cases member

def countedAs (title : String) : Fetch :=
  { aggregate := true,
    entity := some
      { name := "account",
        selection := { columns := [
          { name := "accountid", aliasName := some title, aggregate := some .count }] } } }

/-- A title is written as it stands, and can look like the binder of a join where nothing is
joined. -/
theorem title_looks_like_join :
    joinTrees Catalog.sample.snapshot "account" [] = [] ∧
      (ofFetch Catalog.source "org" (countedAs "/any(o1:") Catalog.sample).1 =
        .ok ⟨"org/accounts?$apply=aggregate($count as /any(o1:)", []⟩ ∧
      occurrences (joinBinder 1)
        "org/accounts?$apply=aggregate($count as /any(o1:)".toList = 1 := by
  refine ⟨by rw [joinTrees], ?_, ?_⟩
  all_goals decide +kernel

end WebQuery

end FetchOData
