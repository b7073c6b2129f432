import FetchOData.Proofs.FilterRules

namespace FetchOData

def Variables.join (v : Variables) : String :=
  "o" ++ Number.integerText (v.joins + 1)

def Variables.afterJoin (v : Variables) : Variables :=
  { v with joins := v.joins + 1 }

namespace Compile
open Query OData

def Selects (t : Snapshot) (entityName : String) (selection : Selection) (columns : List String) :
    Prop :=
  ∀ v, Gives t (select entityName selection) v columns v

def InlineOf (t : Snapshot) (root : Query.Entity) (link : Link) (n : Navigation) (v : Variables)
    (gs : List Group) (v' : Variables) : Prop :=
  if link.join.kind = .outer ∨ n.isCollection = true then
    GroupsOf t root ⟨(target n.route link).name, []⟩ v
      (Filter.nonEmpty (target n.route link).filters) gs v'
  else gs = [] ∧ v = v'

inductive ExpandsOf (t : Snapshot) (root : Query.Entity) :
    String → Variables → List Link → List Expand → Variables → Prop where
  | nil : ExpandsOf t root parent v [] [] v
  | skip (kind : link.join.kind.quantifier? = none) (bare : link.hasContent = false)
      (rest : ExpandsOf t root parent v links es v₁) :
      ExpandsOf t root parent v (link :: links) es v₁
  | expand (kind : link.join.kind.quantifier? = none) (content : link.hasContent = true)
      (resolves : Resolves t parent link n)
      (unordered : link.selection.orders ++ (target n.route link).selection.orders = [])
      (selected : Selects t (target n.route link).name (target n.route link).selection columns)
      (filter : InlineOf t root link n v gs v₁)
      (nested : ExpandsOf t root (target n.route link).name v₁ (target n.route link).links
        innerExpands v₂)
      (rest : ExpandsOf t root parent v₂ links es v₃) :
      ExpandsOf t root parent v (link :: links) (⟨n.property, columns, innerExpands, gs⟩ :: es) v₃

/-- Groups that write something, or else that the row is there. -/
def orPresent (gs : List Group) (path : Path) (key : String) : List Group :=
  if (Group.conjunction? gs).isSome then gs else [present path key]

/-- Links and the conditions that make the inner ones drop rows. -/
inductive JoinsOf (t : Snapshot) (root : Query.Entity) :
    String → Path → Variables → List Link → List Group → Variables → Prop where
  | nil : JoinsOf t root parent path v [] [] v
  | other (kind : link.join.kind ≠ .inner) (rest : JoinsOf t root parent path v links gs v₁) :
      JoinsOf t root parent path v (link :: links) gs v₁
  | toMany (kind : link.join.kind = .inner) (resolves : Resolves t parent link n)
      (many : n.isCollection = true) (record : t.entity (target n.route link).name = .ok e)
      (own : GroupsOf t root ⟨(target n.route link).name, [v.join]⟩ v.afterJoin
        (Filter.nonEmpty (target n.route link).filters) gs v₁)
      (nested : JoinsOf t root (target n.route link).name [v.join] v₁ (target n.route link).links
        innerGroups v₂)
      (rest : JoinsOf t root parent path v₂ links others v₃) :
      JoinsOf t root parent path v (link :: links)
        (.single (.related false path n.property .any v.join
          (orPresent gs [v.join] e.primaryKey ++ innerGroups)) :: others) v₃
  | toOne (kind : link.join.kind = .inner) (resolves : Resolves t parent link n)
      (one : n.isCollection = false) (record : t.entity (target n.route link).name = .ok e)
      (own : GroupsOf t root ⟨(target n.route link).name, path ++ [n.property]⟩ v
        (Filter.nonEmpty (target n.route link).filters) gs v₁)
      (reach : (Group.conjunction? gs).isSome ∨ path = [])
      (nested : JoinsOf t root (target n.route link).name (path ++ [n.property]) v₁
        (target n.route link).links innerGroups v₂)
      (rest : JoinsOf t root parent path v₂ links others v₃) :
      JoinsOf t root parent path v (link :: links)
        (orPresent gs (path ++ [n.property]) e.primaryKey ++ innerGroups ++ others) v₃

variable {t : Snapshot} {root : Query.Entity}

theorem constant_select (entityName : String) (selection : Selection) :
    Constant t (select entityName selection) := by
  unfold select
  split
  · exact constant_pure []
  · exact (constant_entity entityName).bind fun record => constant_ofExcept _ _

theorem gives_rejectOrders {v v' : Variables} {link goal : Link} {u : Unit} :
    Gives t (rejectOrders link goal) v u v' ↔
      link.selection.orders ++ goal.selection.orders = [] ∧ v = v' := by
  unfold rejectOrders
  split
  · rename_i h
    simp [h]
  · rename_i order rest h
    simp [h]

theorem inlineOf_of_gives {v v' : Variables} {link : Link} {n : Navigation} {gs : List Group}
    (h : Gives t (if link.join.kind = .outer || n.isCollection then
        filterGroups root ⟨(target n.route link).name, []⟩ (target n.route link).filters
      else pure []) v gs v') : InlineOf t root link n v gs v' := by
  unfold InlineOf
  split
  · rename_i hi
    rw [if_pos (by simpa using hi)] at h
    exact groupsOf_of_gives h
  · rename_i hi
    rw [if_neg (by simpa using hi)] at h
    obtain ⟨rfl, rfl⟩ := gives_pure.mp h
    exact ⟨rfl, rfl⟩

theorem expandsOf_of_gives {parent : String} {v v' : Variables} {ls : List Link}
    {es : List Expand} (h : Gives t (expands root parent ls) v es v') :
    ExpandsOf t root parent v ls es v' := by
  match ls with
  | [] =>
    rw [expands] at h
    obtain ⟨rfl, rfl⟩ := gives_pure.mp h
    exact .nil
  | link :: links =>
    rw [expands] at h
    split at h
    · exact absurd h gives_reject
    · rename_i kind
      have kind : link.join.kind.quantifier? = none := by simpa using kind
      split at h
      · rename_i content
        obtain ⟨n, _, hb, h⟩ := gives_bind.mp h
        obtain ⟨hn, rfl⟩ := gives_resolve.mp hb
        obtain ⟨_, _, hb, h⟩ := gives_bind.mp h
        obtain ⟨ho, rfl⟩ := gives_rejectOrders.mp hb
        obtain ⟨columns, _, hb, h⟩ := gives_bind.mp h
        obtain ⟨rfl, hs⟩ := constant_select _ _ hb
        obtain ⟨gs, v₁, hg, h⟩ := gives_bind.mp (gives_ite_bind.mp h)
        obtain ⟨inner, v₂, hi, h⟩ := gives_bind.mp h
        obtain ⟨rest, _, hr, h⟩ := gives_bind.mp h
        obtain ⟨rfl, rfl⟩ := gives_pure.mp h
        exact .expand kind content hn ho hs (inlineOf_of_gives hg) (expandsOf_of_gives hi)
          (expandsOf_of_gives hr)
      · rename_i bare
        exact .skip kind (by simpa using bare) (expandsOf_of_gives h)
termination_by Link.sizes ls
decreasing_by
  all_goals first | exact sizes_target_links_lt .. | exact sizes_rest_lt ..

theorem joinsOf_of_gives {parent : String} {path : Path} {v v' : Variables} {ls : List Link}
    {gs : List Group} (h : Gives t (innerJoins root parent path ls) v gs v') :
    JoinsOf t root parent path v ls gs v' := by
  match ls with
  | [] =>
    rw [innerJoins] at h
    obtain ⟨rfl, rfl⟩ := gives_pure.mp h
    exact .nil
  | link :: links =>
    rw [innerJoins] at h
    split at h
    · rename_i kind
      obtain ⟨n, _, hb, h⟩ := gives_bind.mp h
      obtain ⟨hn, rfl⟩ := gives_resolve.mp hb
      obtain ⟨e, _, hb, h⟩ := gives_bind.mp h
      obtain ⟨he, rfl⟩ := gives_entity.mp hb
      dsimp only at h
      split at h
      · rename_i many
        obtain ⟨range, _, hv, h⟩ := gives_bind.mp h
        obtain ⟨rfl, rfl⟩ := gives_freshJoin.mp hv
        obtain ⟨own, v₁, ho, h⟩ := gives_bind.mp h
        obtain ⟨inner, v₂, hi, h⟩ := gives_bind.mp h
        obtain ⟨others, _, hr, h⟩ := gives_bind.mp h
        obtain ⟨rfl, rfl⟩ := gives_pure.mp h
        exact .toMany kind hn many he (groupsOf_of_gives ho) (joinsOf_of_gives hi)
          (joinsOf_of_gives hr)
      · rename_i one
        obtain ⟨own, v₁, ho, h⟩ := gives_bind.mp h
        split at h
        · exact absurd h gives_reject
        · rename_i reach
          obtain ⟨inner, v₂, hi, h⟩ := gives_bind.mp h
          obtain ⟨others, _, hr, h⟩ := gives_bind.mp h
          obtain ⟨rfl, rfl⟩ := gives_pure.mp h
          refine .toOne kind hn (by simpa using one) he (groupsOf_of_gives ho) ?_
            (joinsOf_of_gives hi) (joinsOf_of_gives hr)
          cases hc : Group.conjunction? own with
          | some text => exact Or.inl rfl
          | none => exact Or.inr (by simpa [hc] using reach)
    · rename_i kind
      exact .other kind (joinsOf_of_gives h)
termination_by Link.sizes ls
decreasing_by
  all_goals first | exact sizes_target_links_lt .. | exact sizes_rest_lt ..

theorem constant_outline (fetch : Fetch) (root : Query.Entity) (record : Schema.Entity)
    (collection : String) : Constant t (outline fetch root record collection) := by
  unfold outline
  split
  · exact (constant_ofExcept _ _).bind fun s => constant_pure _
  · exact (constant_select _ _).bind fun selected =>
      (constant_ofExcept _ _).bind fun orderBy => constant_pure _

/-- A fetch and the request that it is compiled to: what is returned, the root's own filters, the
expanded links and the conditions of inner joins, in this order. -/
structure RequestOf (t : Snapshot) (fetch : Fetch) (root : Query.Entity) (r : Request) : Prop where
  admitted : admissible fetch = .ok root
  parts : ∃ record collection o filter v₁ expand v₂ joins v₃,
    t.entity root.name = .ok record ∧ record.collection = .ok collection ∧
    (∀ v, Gives t (outline fetch root record collection) v o v) ∧
    GroupsOf t root ⟨root.name, []⟩ {} (Filter.nonEmpty root.filters) filter v₁ ∧
    ExpandsOf t root root.name v₁ root.links expand v₂ ∧
    JoinsOf t root root.name [] v₂ root.links joins v₃ ∧
    r = { o with target := { o.target with expand, filter := filter ++ joins } }

theorem requestOf_of_answer {fetch : Fetch} {r : Request}
    (h : (request fetch).answer t = .ok r) : ∃ root, RequestOf t fetch root r := by
  unfold request at h
  split at h
  · rename_i root admitted
    have hg : ∃ v, Gives t (rootRequest fetch root) {} r v := by
      rw [StateT.run'_eq, ← bind_pure_comp, Inquiry.answer_bind] at h
      unfold Gives
      change ((rootRequest fetch root {}).answer t >>= fun x => .ok x.1) = .ok r at h
      cases hx : (rootRequest fetch root {}).answer t with
      | error fault => simp [hx, bind, Except.bind] at h
      | ok x =>
        simp only [hx, bind, Except.bind, Except.ok.injEq] at h
        exact ⟨x.2, by rw [← h]⟩
    obtain ⟨v₃, hg⟩ := hg
    obtain ⟨record, _, hb, hg⟩ := gives_bind.mp hg
    obtain ⟨hr, rfl⟩ := gives_entity.mp hb
    obtain ⟨collection, _, hb, hg⟩ := gives_bind.mp hg
    obtain ⟨hc, rfl⟩ := gives_ofExcept.mp hb
    obtain ⟨o, _, hb, hg⟩ := gives_bind.mp hg
    obtain ⟨rfl, ho⟩ := constant_outline _ _ _ _ hb
    obtain ⟨filter, v₁, hf, hg⟩ := gives_bind.mp hg
    obtain ⟨expand, v₂, he, hg⟩ := gives_bind.mp hg
    obtain ⟨joins, _, hj, hg⟩ := gives_bind.mp hg
    obtain ⟨rfl, rfl⟩ := gives_pure.mp hg
    exact ⟨root, admitted, record, collection, o, filter, v₁, expand, v₂, joins, _, hr, hc, ho,
      groupsOf_of_gives hf, expandsOf_of_gives he, joinsOf_of_gives hj, rfl⟩
  · simp [Inquiry.answer] at h

end Compile

end FetchOData
