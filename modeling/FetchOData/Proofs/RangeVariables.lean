import Mathlib.Data.List.Nodup
import FetchOData.Proofs.Wording

namespace FetchOData

def Variables.Between (v v' : Variables) (range : String) : Prop :=
  (∃ n, v.lambdas < n ∧ n ≤ v'.lambdas ∧ range.toList = 'x' :: Number.digits n) ∨
    ∃ n, v.joins < n ∧ n ≤ v'.joins ∧ range.toList = 'o' :: Number.digits n

structure Variables.Fresh (v : Variables) (ranges : List String) (v' : Variables) : Prop where
  lambdas : v.lambdas ≤ v'.lambdas
  joins : v.joins ≤ v'.joins
  nodup : ranges.Nodup
  between (range : String) (h : range ∈ ranges) : v.Between v' range

namespace Variables

variable {v v₁ v₂ : Variables} {ranges others : List String}

/-- What is handed out later is something else. -/
theorem Between.disjoint {w w' : Variables} {range : String} (hl : v₁.lambdas ≤ w.lambdas)
    (hj : v₁.joins ≤ w.joins) (h : v.Between v₁ range) : ¬ w.Between w' range := by
  rintro h'
  rcases h with ⟨m, _, hm, he⟩ | ⟨m, _, hm, he⟩ <;> rcases h' with ⟨n, hn, _, he'⟩ | ⟨n, hn, _, he'⟩
  · have := Number.digits_inj (List.cons.inj (he.symm.trans he')).2
    omega
  · exact absurd (List.cons.inj (he.symm.trans he')).1 (by decide)
  · exact absurd (List.cons.inj (he.symm.trans he')).1 (by decide)
  · have := Number.digits_inj (List.cons.inj (he.symm.trans he')).2
    omega

theorem Between.mono {w w' : Variables} {range : String} (h : v.Between v₁ range)
    (hl : w.lambdas ≤ v.lambdas ∧ v₁.lambdas ≤ w'.lambdas)
    (hj : w.joins ≤ v.joins ∧ v₁.joins ≤ w'.joins) : w.Between w' range := by
  rcases h with ⟨n, hn, hn', he⟩ | ⟨n, hn, hn', he⟩
  · exact Or.inl ⟨n, by omega, by omega, he⟩
  · exact Or.inr ⟨n, by omega, by omega, he⟩

theorem fresh_nil : v.Fresh [] v :=
  ⟨Nat.le_refl _, Nat.le_refl _, List.nodup_nil, List.forall_mem_nil _⟩

theorem fresh_lambda : v.Fresh [v.lambda] v.afterLambda := by
  refine ⟨Nat.le_succ _, Nat.le_refl _, by simp, ?_⟩
  refine List.forall_mem_singleton.mpr (Or.inl ⟨v.lambdas + 1, ?_, ?_, Compile.toList_lambda v⟩)
  · exact Nat.lt_succ_self _
  · exact Nat.le_refl _

theorem fresh_join : v.Fresh [v.join] v.afterJoin := by
  refine ⟨Nat.le_refl _, Nat.le_succ _, by simp, ?_⟩
  refine List.forall_mem_singleton.mpr (Or.inr ⟨v.joins + 1, ?_, ?_, Compile.toList_join v⟩)
  · exact Nat.lt_succ_self _
  · exact Nat.le_refl _

theorem Fresh.append (h : v.Fresh ranges v₁) (h' : v₁.Fresh others v₂) :
    v.Fresh (ranges ++ others) v₂ where
  lambdas := h.lambdas.trans h'.lambdas
  joins := h.joins.trans h'.joins
  nodup := by
    refine List.nodup_append.mpr ⟨h.nodup, h'.nodup, ?_⟩
    rintro range hr other ho rfl
    exact (h.between range hr).disjoint (Nat.le_refl _) (Nat.le_refl _) (h'.between range ho)
  between := by
    intro range hr
    rcases List.mem_append.mp hr with hr | hr
    · exact (h.between range hr).mono ⟨Nat.le_refl _, h'.lambdas⟩ ⟨Nat.le_refl _, h'.joins⟩
    · exact (h'.between range hr).mono ⟨h.lambdas, Nat.le_refl _⟩ ⟨h.joins, Nat.le_refl _⟩

theorem Fresh.perm (h : v.Fresh ranges v₁) (hp : ranges.Perm others) : v.Fresh others v₁ where
  lambdas := h.lambdas
  joins := h.joins
  nodup := hp.nodup_iff.mp h.nodup
  between range hr := h.between range (hp.mem_iff.mpr hr)

theorem Fresh.sublist (h : v.Fresh ranges v₁) (hs : others.Sublist ranges) :
    v.Fresh others v₁ where
  lambdas := h.lambdas
  joins := h.joins
  nodup := h.nodup.sublist hs
  between range hr := h.between range (hs.subset hr)

end Variables

namespace OData

theorem Predicate.rangesAll_append (ps qs : List Predicate) :
    Predicate.rangesAll (ps ++ qs) = Predicate.rangesAll ps ++ Predicate.rangesAll qs := by
  induction ps with
  | nil => simp [Predicate.rangesAll]
  | cons p ps ih => simp [Predicate.rangesAll, ih]

theorem Group.rangesAll_append (gs hs : List Group) :
    Group.rangesAll (gs ++ hs) = Group.rangesAll gs ++ Group.rangesAll hs := by
  induction gs with
  | nil => simp [Group.rangesAll]
  | cons g gs ih => simp [Group.rangesAll, ih]

theorem Group.rangesAll_single (p : Predicate) (gs : List Group) :
    Group.rangesAll (.single p :: gs) = p.ranges ++ Group.rangesAll gs := by
  simp [Group.single, Group.rangesAll, Group.ranges, Predicate.rangesAll]

end OData

namespace Compile
open Query OData

variable {t : Snapshot} {root : Query.Entity}

theorem Renders.ranges_eq {site : Site} {c : Condition} {p : Predicate}
    (h : Renders t root site c p) : p.ranges = [] := by
  obtain ⟨_, _, _, _, _, _, _, shape⟩ := h.shape
  cases shape <;> rw [Predicate.ranges] <;> simp

theorem rangesAll_of_renders {site : Site} {cs : List Condition} {ps : List Predicate}
    (h : List.Forall₂ (Renders t root site) cs ps) : Predicate.rangesAll ps = [] := by
  induction h with
  | nil => rw [Predicate.rangesAll]
  | cons hr _ ih => rw [Predicate.rangesAll, ih, Renders.ranges_eq hr, List.append_nil]

mutual
theorem GroupsOf.fresh {site : Site} {v v' : Variables} {fs : List Filter} {gs : List Group}
    (h : GroupsOf t root site v fs gs v') : v.Fresh (Group.rangesAll gs) v' := by
  match h with
  | .nil =>
    rw [Group.rangesAll]
    exact Variables.fresh_nil
  | .cons own related nested rest =>
    rw [Group.rangesAll, Group.ranges, Predicate.rangesAll_append, rangesAll_of_renders own,
      List.nil_append]
    exact ((RelatedOf.fresh related).append (GroupsOf.fresh nested)).append (GroupsOf.fresh rest)
theorem RelatedOf.fresh {site : Site} {v v' : Variables} {ls : List Link} {ps : List Predicate}
    (h : RelatedOf t root site v ls ps v') : v.Fresh (Predicate.rangesAll ps) v' := by
  match h with
  | .nil =>
    rw [Predicate.rangesAll]
    exact Variables.fresh_nil
  | .cons kind resolves reading body rest =>
    rw [Predicate.rangesAll, Predicate.ranges]
    exact (Variables.fresh_lambda.append (GroupsOf.fresh body)).append (RelatedOf.fresh rest)
end

theorem GroupsOf.fresh_orPresent {site : Site} {v v' : Variables} {fs : List Filter}
    {gs : List Group} (h : GroupsOf t root site v fs gs v') (path : Path) (key : String) :
    v.Fresh (Group.rangesAll (orPresent gs path key)) v' := by
  unfold orPresent
  split
  · exact h.fresh
  · have none : Group.rangesAll [present path key] = [] := by
      simp [present, Group.single, Group.rangesAll, Group.ranges, Predicate.rangesAll,
        Predicate.ranges]
    rw [none]
    exact h.fresh.sublist (List.nil_sublist _)

theorem JoinsOf.fresh {parent : String} {path : Path} {v v' : Variables} {ls : List Link}
    {gs : List Group} (h : JoinsOf t root parent path v ls gs v') :
    v.Fresh (Group.rangesAll gs) v' := by
  induction h with
  | nil =>
    rw [Group.rangesAll]
    exact Variables.fresh_nil
  | other kind rest ih => exact ih
  | toMany kind resolves many record own nested rest ih₁ ih₂ =>
    rw [Group.rangesAll_single, Predicate.ranges, Group.rangesAll_append]
    exact (Variables.fresh_join.append ((own.fresh_orPresent _ _).append ih₁)).append ih₂
  | toOne kind resolves one record own reach nested rest ih₁ ih₂ =>
    rw [Group.rangesAll_append, Group.rangesAll_append]
    exact ((own.fresh_orPresent _ _).append ih₁).append ih₂

theorem InlineOf.fresh {link : Link} {n : Navigation} {v v' : Variables} {gs : List Group}
    (h : InlineOf t root link n v gs v') : v.Fresh (Group.rangesAll gs) v' := by
  unfold InlineOf at h
  split at h
  · exact h.fresh
  · obtain ⟨rfl, rfl⟩ := h
    rw [Group.rangesAll]
    exact Variables.fresh_nil

theorem ExpandsOf.fresh {parent : String} {v v' : Variables} {ls : List Link} {es : List Expand}
    (h : ExpandsOf t root parent v ls es v') : v.Fresh (Expand.rangesAll es) v' := by
  induction h with
  | nil =>
    rw [Expand.rangesAll]
    exact Variables.fresh_nil
  | skip kind bare rest ih => exact ih
  | expand kind content resolves unordered selected filter nested rest ih₁ ih₂ =>
    -- The filter takes its variables before the links below do, and is written after them.
    rw [Expand.rangesAll, Expand.ranges]
    exact ((filter.fresh.append ih₁).perm List.perm_append_comm).append ih₂

/-- No variable is bound twice in a request. -/
theorem RequestOf.nodup_ranges {fetch : Fetch} {r : Request} (h : RequestOf t fetch root r) :
    r.target.ranges.Nodup := by
  obtain ⟨_, _, o, filter, v₁, expand, v₂, joins, v₃, _, _, _, own, expanded, joined, rfl⟩ :=
    h.parts
  have all := (own.fresh.append expanded.fresh).append joined.fresh
  rw [Expand.ranges, Group.rangesAll_append, ← List.append_assoc]
  exact (all.perm (List.perm_append_comm.append_right _)).nodup

end Compile

namespace WebQuery
open Query OData Compile Text

def IsFixed (n : String) : Prop :=
  IsIdentifier n ∧ ¬ IsVariable n.toList

instance (n : String) : Decidable (IsFixed n) :=
  inferInstanceAs (Decidable (_ ∧ _))

/-- Fixed names, no columns to compare with, and identifiers for aggregates. -/
def fixedNames : Lexicon where
  name := IsFixed
  column _ := False
  title := IsIdentifier
  identifier _ h := h.1
  lookup n h := by
    refine ⟨h.1.lookup, ?_⟩
    have text : ("_" ++ n ++ "_value").toList = '_' :: (n.toList ++ "_value".toList) := by simp
    rw [text, isVariable_cons_iff]
    rintro ⟨hc | hc, _⟩ <;> exact absurd hc (by decide)
  entitled _ h := h.1

/-- In a URL that is converted against a schema with fixed names, without columns to compare with
and with identifiers as aliases, every range variable is bound once at most, and every path that
one heads stands in the parentheses that bind it. What the base holds does not matter, unless it has
binders itself. -/
theorem rangeVariables_unique_scoped {source : Source σ} {t : Snapshot} {s s' : σ} {base : String}
    {fetch : Fetch} {q : WebQuery} (stable : source.Shows t s) (named : t.Named IsFixed)
    (columnless : ∀ root, fetch.entity = some root →
      root.Each fun c => c.comparedColumn? = none)
    (aliases : ∀ root, fetch.entity = some root → fetch.aggregate = true →
      ∀ c ∈ root.selection.columns, ∀ n, c.title? = some n → IsIdentifier n)
    (converts : ofFetch source base fetch s = (.ok q, s')) :
    ∃ rest, q.url = Request.trimBase base ++ "/" ++ rest ∧
      (∀ w, IsVariable w → occurrences (binder w) rest.toList ≤ 1 ∧
        ('(' ∉ base.toList → occurrences (binder w) q.url.toList ≤ 1)) ∧
      ∀ before w after, rest.toList = before ++ w ++ after → IsVariable w →
        HeadsPath before after → Enclosed w before after := by
  obtain ⟨r, hr, rfl⟩ := request_of_converts stable converts
  obtain ⟨root, h⟩ := requestOf_of_answer hr
  have keeps : fetch.Keeps fixedNames := by
    refine ⟨fun root hroot => (columnless root hroot).mono fun c hc n hn => ?_, aliases⟩
    rw [hc] at hn
    cases hn
  have spelled : r.Spelled fixedNames := h.spelled named keeps
  obtain ⟨bs, phrase, sub⟩ := Request.wording_relative (fun _ => not_false) (fun _ => id) spelled
  have nodup : bs.Nodup := by
    have distinct : (r.target.ranges.map String.toList).Nodup :=
      List.Nodup.map (fun _ _ => String.toList_inj.mp) h.nodup_ranges
    exact distinct.sublist sub
  have once {w : List Char} (hw : IsVariable w) :
      occurrences (binder w) r.relative.toList ≤ 1 := by
    rw [phrase.occurrences_eq hw]
    exact List.nodup_iff_count_le_one.mp nodup w
  refine ⟨r.relative, r.url_eq base, fun w hw => ⟨once hw, fun hb => ?_⟩, ?_⟩
  · have plain : '(' ∉ (Request.trimBase base ++ "/").toList := by
      simpa using fun hm => hb (Request.mem_trimBase hm)
    change occurrences (binder w) (r.url base).toList ≤ 1
    rw [r.url_eq, String.toList_append, occurrences_binder_append plain]
    exact once hw
  · intro before w after he hw hp
    rcases phrase.scoped before w after he hw hp with ⟨n, hn | hn, rfl⟩ | henclosed
    · exact absurd hw hn.2
    · exact absurd hn List.not_mem_nil
    · exact henclosed

def namedLikeBinders : Query.Entity :=
  { name := "account",
    links := [{
      join := { entity := "contact", fromColumn := "parentcustomerid", toColumn := "accountid" },
      filters := [{ links := [{
        join := { entity := "account", fromColumn := "primarycontactid", toColumn := "contactid",
                  kind := .related .any false },
        filters := [{ conditions := [
          { column := "name", operator := .beginsWith, value := some "(x1:x1/name" }] }] }] }] }] }

/-- The filter of the link is written twice, with variables of its own each time, and the name that
looks like a binder binds nothing. -/
theorem rangeVariables_unique_scoped_namedLikeBinders :
    ∃ q s' rest, ofFetch Catalog.source "org" { entity := some namedLikeBinders } Catalog.sample =
        (.ok q, s') ∧
      q.url = "org/accounts?$expand=contact_customer_accounts(" ++
        "$filter=(account_primarycontact/any(x1:(startswith(x1%2fname, '(x1%3ax1%2fname')))))" ++
        "&$filter=(contact_customer_accounts/any(o1:(o1/account_primarycontact/any(" ++
        "x2:(startswith(x2%2fname, '(x1%3ax1%2fname'))))))" ∧
      q.url = "org" ++ "/" ++ rest ∧ occurrences (binder "x1".toList) rest.toList ≤ 1 ∧
      occurrences (binder "x2".toList) q.url.toList ≤ 1 ∧
      ∀ before after, rest.toList = before ++ "x2".toList ++ after → HeadsPath before after →
        Enclosed "x2".toList before after := by
  have converts : ofFetch Catalog.source "org" { entity := some namedLikeBinders }
      Catalog.sample = (.ok ⟨"org/accounts?$expand=contact_customer_accounts(" ++
        "$filter=(account_primarycontact/any(x1:(startswith(x1%2fname, '(x1%3ax1%2fname')))))" ++
        "&$filter=(contact_customer_accounts/any(o1:(o1/account_primarycontact/any(" ++
        "x2:(startswith(x2%2fname, '(x1%3ax1%2fname'))))))", []⟩, _) :=
    Prod.ext (by decide +kernel) rfl
  have named : Catalog.sample.snapshot.Named IsFixed := Catalog.named_snapshot (by decide +kernel)
  have each : namedLikeBinders.Each fun c => c.comparedColumn? = none := by
    refine ⟨?_, List.forall_mem_singleton.mpr (.mk (List.forall_mem_singleton.mpr (.mk ?_ ?_
      (List.forall_mem_singleton.mpr (.mk (List.forall_mem_singleton.mpr (.mk ?_ ?_ ?_)) ?_)))) ?_)⟩
    case refine_4 => exact List.forall_mem_singleton.mpr rfl
    all_goals exact List.forall_mem_nil _
  obtain ⟨rest, hurl, once, bound⟩ := rangeVariables_unique_scoped (Catalog.shows _) named
    (by rintro root ⟨⟩; exact each) (by rintro root _ ⟨⟩) converts
  have base : Request.trimBase "org" = "org" := by decide +kernel
  rw [base] at hurl
  refine ⟨_, _, rest, converts, rfl, hurl, (once "x1".toList (by decide)).1,
    (once "x2".toList (by decide)).2 (by decide), ?_⟩
  exact fun before after he => bound before _ after he (by decide)

end WebQuery

end FetchOData
