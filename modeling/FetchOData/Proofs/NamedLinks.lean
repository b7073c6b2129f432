import FetchOData.Proofs.Relationships

namespace FetchOData

theorem isFirst_cons {P : α → Prop} {x y : α} {ys : List α} :
    IsFirst P x (y :: ys) ↔ P y ∧ x = y ∨ ¬ P y ∧ IsFirst P x ys := by
  constructor
  · rintro ⟨h, before, after, split, earlier⟩
    cases before with
    | nil =>
      obtain ⟨rfl, rfl⟩ := List.cons.inj split
      exact Or.inl ⟨h, rfl⟩
    | cons z before =>
      obtain ⟨rfl, rfl⟩ := List.cons.inj split
      exact Or.inr ⟨earlier y (by simp), h, before, after, rfl,
        fun w hw => earlier w (List.mem_cons_of_mem y hw)⟩
  · rintro (⟨h, rfl⟩ | ⟨hy, h, before, after, rfl, earlier⟩)
    · exact ⟨h, [], ys, rfl, by simp⟩
    · exact ⟨h, y :: before, after, rfl, by simpa using ⟨hy, earlier⟩⟩

theorem IsFirst.unique {P : α → Prop} {x y : α} {xs : List α} (hx : IsFirst P x xs)
    (hy : IsFirst P y xs) : x = y := by
  induction xs with
  | nil =>
    obtain ⟨_, before, after, split, _⟩ := hx
    simp at split
  | cons z zs ih =>
    rcases isFirst_cons.mp hx with ⟨hz, rfl⟩ | ⟨hz, hx⟩
    · rcases isFirst_cons.mp hy with ⟨_, rfl⟩ | ⟨hn, _⟩
      · rfl
      · exact absurd hz hn
    · rcases isFirst_cons.mp hy with ⟨hp, _⟩ | ⟨_, hy⟩
      · exact absurd hp hz
      · exact ih hx hy

namespace Compile
open Query OData

def way (t : Snapshot) (parent : String) (link : Link) : Except Fault Navigation :=
  match t.entity parent with
  | .ok record =>
    match navigate record parent link with
    | .ok n => .ok n
    | .error cause => .error (.unsupported cause)
  | .error cause => .error (.schema cause)

structure Visit where
  above : List Navigation
  link : Link
  way : Except Fault Navigation

namespace Visit

def isCalled (name : String) (x : Visit) : Bool :=
  x.link.isReferencedBy name ||
    x.way.toOption.any fun n => (target n.route x.link).isReferencedBy name

def steps (x : Visit) : List Navigation :=
  x.above ++ x.way.toOption.toList

def sighting (x : Visit) (n : Navigation) : Sighting :=
  ⟨⟨(target n.route x.link).name, (x.above ++ [n]).map (·.property)⟩,
    (x.above ++ [n]).any (·.isCollection)⟩

end Visit

def visits (t : Snapshot) (parent : String) (above : List Navigation) (links : List Link) :
    List Visit :=
  match links with
  | [] => []
  | link :: rest =>
    ⟨above, link, way t parent link⟩ ::
      ((match way t parent link with
        | .ok n =>
          visits t (target n.route link).name (above ++ [n]) (target n.route link).links
        | .error _ => []) ++
        visits t parent above rest)
termination_by Link.sizes links
decreasing_by
  · exact sizes_target_links_lt ..
  · exact sizes_rest_lt ..

/-- The first visit to a link that goes by the name. A link before it that cannot be reached ends
the search. -/
def search (name : String) : List Visit → Except Fault (Option Sighting)
  | [] => .ok none
  | x :: xs =>
    match x.way with
    | .error fault => .error fault
    | .ok n => if x.isCalled name then .ok (some (x.sighting n)) else search name xs

/-- The search comes to an end at the visit: it is the first to a link that goes by the name, and
every link before it can be reached. -/
structure EndsAt (name : String) (x : Visit) (n : Navigation) (xs : List Visit) : Prop where
  first : IsFirst (fun y => y.isCalled name = true) x xs
  way : x.way = .ok n
  reached : ∀ y ∈ xs.takeWhile fun y => !y.isCalled name, ∃ m, y.way = .ok m

variable {t : Snapshot} {v v' : Variables} {name parent : String}

theorem answer_resolve (link : Link) :
    (resolve parent link v).answer t = (way t parent link).map (·, v) := by
  change Inquiry.answer t (.entity parent _) = _
  rw [Inquiry.answer, way]
  cases t.entity parent with
  | error cause => rfl
  | ok record =>
    change (ofExcept .unsupported (navigate record parent link) v).answer t = _
    cases h : navigate record parent link <;> simp only [h] <;> rfl

theorem way_eq_ok_iff {link : Link} {n : Navigation} :
    way t parent link = .ok n ↔ Resolves t parent link n := by
  rw [way, Resolves]
  cases t.entity parent with
  | error cause => simp
  | ok record => cases h : navigate record parent link <;> simp [h]

theorem answer_bind {m : Compile α} {f : α → Compile β} :
    ((m >>= f) v).answer t = (m v).answer t >>= fun r => (f r.1 r.2).answer t :=
  Inquiry.answer_bind t (m v) fun r => f r.1 r.2

theorem search_append (xs ys : List Visit) :
    search name (xs ++ ys) = (search name xs >>= fun
      | some found => .ok (some found)
      | none => search name ys) := by
  induction xs with
  | nil => rfl
  | cons x xs ih =>
    rw [List.cons_append, search, search]
    cases x.way with
    | error fault => rfl
    | ok n =>
      dsimp only
      split
      · rfl
      · exact ih

/-- The links are searched in the order in which they are visited. -/
theorem answer_findLink (name parent : String) (above : List Navigation) (links : List Link)
    (v : Variables) :
    (findLink name parent (above.map (·.property)) (above.any (·.isCollection)) links v).answer t =
      (search name (visits t parent above links)).map (·, v) := by
  cases links with
  | nil =>
    rw [findLink, visits]
    rfl
  | cons link rest =>
    rw [findLink, visits, search, answer_bind, answer_resolve]
    cases hw : way t parent link with
    | error fault => rfl
    | ok n =>
      have called : ((target n.route link).isReferencedBy name || link.isReferencedBy name) =
          Visit.isCalled name ⟨above, link, .ok n⟩ := by
        simp [Visit.isCalled, Except.toOption, Bool.or_comm]
      -- The search goes below the link first and then on beside it, as the visits do.
      have below := answer_findLink name (target n.route link).name (above ++ [n])
        (target n.route link).links v
      have beside := answer_findLink name parent above rest v
      simp only [List.map_append, List.map_cons, List.map_nil, List.any_append, List.any_cons,
        List.any_nil, Bool.or_false] at below
      change ((if _ then _ else _ : Compile _) v).answer t = _
      dsimp only
      rw [called]
      split
      · simp only [Visit.sighting, List.map_append, List.map_cons, List.map_nil, List.any_append,
          List.any_cons, List.any_nil, Bool.or_false]
        rfl
      · rw [answer_bind, below, search_append]
        cases search name (visits t (target n.route link).name (above ++ [n])
            (target n.route link).links) with
        | error fault => rfl
        | ok found =>
          cases found with
          | some sighting => rfl
          | none => exact beside
termination_by Link.sizes links
decreasing_by
  · exact sizes_target_links_lt ..
  · exact sizes_rest_lt ..

theorem search_eq_some_iff {xs : List Visit} {s : Sighting} :
    search name xs = .ok (some s) ↔ ∃ x n, EndsAt name x n xs ∧ s = x.sighting n := by
  induction xs with
  | nil =>
    simp only [search, Except.ok.injEq, reduceCtorEq, false_iff]
    rintro ⟨x, n, ⟨⟨_, before, after, split, _⟩, _, _⟩, _⟩
    simp at split
  | cons y ys ih =>
    rw [search]
    by_cases hc : y.isCalled name = true
    · constructor
      · intro h
        cases hw : y.way with
        | error fault => simp [hw] at h
        | ok n =>
          simp only [hw, hc, if_true, Except.ok.injEq, Option.some.injEq] at h
          exact ⟨y, n, ⟨isFirst_cons.mpr (Or.inl ⟨hc, rfl⟩), hw, by simp [hc]⟩, h.symm⟩
      · rintro ⟨x, n, ends, rfl⟩
        rcases isFirst_cons.mp ends.first with ⟨_, rfl⟩ | ⟨hn, _⟩
        · simp [ends.way, hc]
        · exact absurd hc hn
    · constructor
      · intro h
        cases hw : y.way with
        | error fault => simp [hw] at h
        | ok m =>
          simp only [hw, hc, Bool.false_eq_true, if_false] at h
          obtain ⟨x, n, ends, hs⟩ := ih.mp h
          refine ⟨x, n, ⟨isFirst_cons.mpr (Or.inr ⟨hc, ends.first⟩), ends.way, ?_⟩, hs⟩
          simpa [hc, hw] using ends.reached
      · rintro ⟨x, n, ends, rfl⟩
        rcases isFirst_cons.mp ends.first with ⟨hy, _⟩ | ⟨_, first⟩
        · exact absurd hy hc
        · have reached := ends.reached
          simp only [List.takeWhile_cons, hc, Bool.not_false, if_true, List.mem_cons,
            forall_eq_or_imp] at reached
          obtain ⟨⟨m, hw⟩, reached⟩ := reached
          simp only [hw, hc, Bool.false_eq_true, if_false]
          exact ih.mpr ⟨x, n, ⟨first, ends.way, reached⟩, rfl⟩

/-- Nothing below a link counts as a link of its parent. -/
theorem mem_of_mem_visits {parent : String} {above : List Navigation} {links : List Link}
    {x : Visit} (hx : x ∈ visits t parent above links) :
    above <+: x.above ∧ (x.above = above → x.link ∈ links ∧ x.way = way t parent x.link) := by
  match links with
  | [] => simp [visits] at hx
  | link :: rest =>
    rw [visits, List.mem_cons, List.mem_append] at hx
    rcases hx with rfl | hx | hx
    · exact ⟨List.prefix_rfl, fun _ => ⟨List.mem_cons_self, rfl⟩⟩
    · cases hw : way t parent link with
      | error fault => simp [hw] at hx
      | ok n =>
        simp only [hw] at hx
        have hp := (mem_of_mem_visits hx).1
        refine ⟨(List.prefix_append above [n]).trans hp, fun he => ?_⟩
        have := hp.length_le
        simp only [he, List.length_append, List.length_cons] at this
        omega
    · obtain ⟨hp, h⟩ := mem_of_mem_visits hx
      exact ⟨hp, fun he => ⟨List.mem_cons_of_mem link (h he).1, (h he).2⟩⟩
termination_by Link.sizes links
decreasing_by
  all_goals first | exact sizes_target_links_lt .. | exact sizes_rest_lt ..

theorem gives_findLink {root : Query.Entity} {s : Sighting} :
    Gives t (findLink name root.name [] false root.links) v (some s) v' ↔
      (∃ x n, EndsAt name x n (visits t root.name [] root.links) ∧ s = x.sighting n) ∧ v = v' := by
  have h := answer_findLink (t := t) name root.name [] root.links v
  rw [List.map_nil, List.any_nil] at h
  rw [Gives, h, ← search_eq_some_iff]
  cases search name (visits t root.name [] root.links) <;> simp [Except.map]

theorem gives_subject {root : Query.Entity} {site place : Site} :
    Gives t (subject root site (some name)) v place v' ↔
      ∃ x n, EndsAt name x n (visits t root.name [] root.links) ∧
        (x.sighting n).collection = false ∧ place = (x.sighting n).site ∧ v = v' := by
  rw [subject, gives_bind]
  constructor
  · rintro ⟨found, w, hf, h⟩
    cases found with
    | none => exact absurd h gives_reject
    | some s =>
      obtain ⟨⟨x, n, ends, rfl⟩, rfl⟩ := gives_findLink.mp hf
      dsimp only at h
      split at h
      · exact absurd h gives_reject
      · rename_i hc
        obtain ⟨rfl, rfl⟩ := gives_pure.mp h
        exact ⟨x, n, ends, by simpa using hc, rfl, rfl⟩
  · rintro ⟨x, n, ends, hc, rfl, rfl⟩
    refine ⟨some (x.sighting n), v, gives_findLink.mpr ⟨⟨x, n, ends, rfl⟩, rfl⟩, ?_⟩
    simp [hc]

/-- Once its subject is known, a condition is one that names no link. -/
theorem condition_eq_subject_bind (root : Query.Entity) (site : Site) (c : Condition) :
    condition root site c = subject root site c.entityName >>= fun place =>
      condition root place { c with entityName := none } :=
  rfl

theorem renders_iff {root : Query.Entity} {site : Site} {c : Condition} {p : Predicate}
    (named : c.entityName = some name) :
    Renders t root site c p ↔ ∃ x n, EndsAt name x n (visits t root.name [] root.links) ∧
      (x.sighting n).collection = false ∧
      Renders t root (x.sighting n).site { c with entityName := none } p := by
  constructor
  · intro h
    have hv := h {}
    rw [condition_eq_subject_bind, named, gives_bind] at hv
    obtain ⟨place, w, hs, hp⟩ := hv
    obtain ⟨x, n, ends, one, rfl, rfl⟩ := gives_subject.mp hs
    exact ⟨x, n, ends, one, (gives_condition.mp hp).1⟩
  · rintro ⟨x, n, ends, one, h⟩ v
    rw [condition_eq_subject_bind, named, gives_bind]
    exact ⟨_, v, gives_subject.mpr ⟨x, n, ends, one, rfl, rfl⟩, h v⟩

/-- A condition is written in one way or not at all. -/
theorem exists_error_of_not_renders {root : Query.Entity} {site : Site} {c : Condition}
    (h : ∀ p, ¬ Renders t root site c p) (v : Variables) :
    ∃ fault, (condition root site c v).answer t = .error fault := by
  cases ha : (condition root site c v).answer t with
  | error fault => exact ⟨fault, rfl⟩
  | ok result => exact absurd (gives_condition.mp ha).1 (h result.1)

/-- A link that is near enough for a condition is one of the root's. -/
theorem above_eq_nil {x : Visit} {n : Navigation}
    (h : tooDeep (x.sighting n).site.path = false) : x.above = [] := by
  have := length_le_of_tooDeep_eq_false h
  simp only [Visit.sighting, List.map_append, List.length_append, List.length_map, List.length_cons,
    List.length_nil] at this
  exact List.eq_nil_of_length_eq_zero (by omega)

theorem sighting_of_above_eq_nil {x : Visit} {n : Navigation} (h : x.above = [])
    (one : n.isCollection = false) :
    x.sighting n = ⟨⟨x.link.name, [n.property]⟩, false⟩ := by
  simp [Visit.sighting, h, one, target_eq_of_toOne one]

/-- The links of the root that lead to one row are the only ones that a condition can name. -/
theorem renders_iff_own_link {root : Query.Entity} {site : Site} {c : Condition} {a : String}
    (named : c.entityName = some a) {p : Predicate} :
    Renders t root site c p ↔
      ∃ x n, EndsAt a x n (visits t root.name [] root.links) ∧ x.above = [] ∧
        x.link ∈ root.links ∧ Resolves t root.name x.link n ∧ n.isCollection = false ∧
        Renders t root ⟨x.link.name, [n.property]⟩ { c with entityName := none } p := by
  rw [renders_iff named]
  constructor
  · rintro ⟨x, n, ends, one, h⟩
    have own := above_eq_nil (h.own_shape rfl).1
    obtain ⟨_, before, after, split, _⟩ := ends.first
    have hx : x ∈ visits t root.name [] root.links := split ▸ by simp
    have ⟨member, hw⟩ := (mem_of_mem_visits hx).2 own
    have one : n.isCollection = false := by simpa [Visit.sighting, own] using one
    rw [sighting_of_above_eq_nil own one] at h
    exact ⟨x, n, ends, own, member, way_eq_ok_iff.mp (hw.symm.trans ends.way), one, h⟩
  · rintro ⟨x, n, ends, own, _, _, one, h⟩
    refine ⟨x, n, ends, ?_⟩
    rw [sighting_of_above_eq_nil own one]
    exact ⟨rfl, h⟩

/-- A condition that names a link is about the first link, depth first, that goes by the name or
joins one that does. It is written for the row that this link leads to, wherever the condition
stands, if the link is one of the root's own and leads to one row; otherwise it is refused. -/
theorem condition_bound_to_named_link {c : Condition} {a : String} (named : c.entityName = some a)
    (t : Snapshot) (root : Query.Entity) (site : Site) :
    (∀ elsewhere, condition root elsewhere c = condition root site c) ∧
    (∀ p, Renders t root site c p ↔ ∃ x n, EndsAt a x n (visits t root.name [] root.links) ∧
      x.above = [] ∧ x.link ∈ root.links ∧ Resolves t root.name x.link n ∧
      n.isCollection = false ∧
      Renders t root ⟨x.link.name, [n.property]⟩ { c with entityName := none } p) ∧
    ((∀ x, IsFirst (fun y => y.isCalled a = true) x (visits t root.name [] root.links) →
        x.above ≠ [] ∨ ∃ n ∈ x.steps, n.isCollection = true) →
      ∀ v, ∃ fault, (condition root site c v).answer t = .error fault) := by
  refine ⟨fun elsewhere => ?_, fun p => renders_iff_own_link named,
    fun unfit => exists_error_of_not_renders fun p h => ?_⟩
  · rw [condition_eq_subject_bind, condition_eq_subject_bind root site, named]
    rfl
  · obtain ⟨x, n, ends, own, _, _, one, _⟩ := (renders_iff_own_link named).mp h
    rcases unfit x ends.first with nested | ⟨m, hm, many⟩
    · exact nested own
    · simp only [Visit.steps, own, ends.way, Except.toOption, Option.toList_some, List.nil_append,
        List.mem_singleton] at hm
      rw [hm, one] at many
      cases many

def employees : Link :=
  { join := { entity := "contact", fromColumn := "parentcustomerid", toColumn := "accountid" } }

def mainContact : Link :=
  { join := { entity := "contact", fromColumn := "contactid", toColumn := "primarycontactid",
              aliasName := some "main" } }

/-- A link with a name of its own is found behind another to the same entity, whose name is refused
since it leads to many rows. -/
theorem condition_bound_to_named_link_main :
    Renders Catalog.sample.snapshot { name := "account", links := [employees, mainContact] }
        ⟨"lead", ["x1"]⟩
        { column := "firstname", operator := .eq, value := some "Ann", entityName := some "main" }
        (.compare ⟨["primarycontactid"], "firstname", false⟩ .eq (.literal "'Ann'")) ∧
      ∃ fault, (condition { name := "account", links := [employees, mainContact] } ⟨"account", []⟩
        { column := "firstname", operator := .eq, value := some "Ann",
          entityName := some "contact" } {}).answer Catalog.sample.snapshot = .error fault := by
  have many : Resolves Catalog.sample.snapshot "account" employees
      ⟨"contact_customer_accounts", .toMany⟩ := by
    decide +kernel
  have one : Resolves Catalog.sample.snapshot "account" mainContact
      ⟨"primarycontactid", .toOne⟩ := by
    decide +kernel
  have order : visits Catalog.sample.snapshot "account" [] [employees, mainContact] =
      [⟨[], employees, .ok ⟨"contact_customer_accounts", .toMany⟩⟩,
        ⟨[], mainContact, .ok ⟨"primarycontactid", .toOne⟩⟩] := by
    have none : employees.links = [] := rfl
    have none' : mainContact.links = [] := rfl
    simp [visits, way_eq_ok_iff.mpr many, way_eq_ok_iff.mpr one, target_eq_self, none, none']
  constructor
  · refine ((condition_bound_to_named_link rfl _ _ _).2.1 _).mpr
      ⟨⟨[], mainContact, .ok ⟨"primarycontactid", .toOne⟩⟩, ⟨"primarycontactid", .toOne⟩,
        ⟨?_, rfl, ?_⟩, rfl, by simp, one, rfl, ?_⟩
    · exact order ▸ ⟨by decide, [_], [], rfl, by decide⟩
    · rw [order]
      intro y hy
      exact ⟨⟨"contact_customer_accounts", .toMany⟩, by rw [List.mem_singleton.mp hy]⟩
    · have h : Gives Catalog.sample.snapshot (condition
          { name := "account", links := [employees, mainContact] } ⟨"contact", ["primarycontactid"]⟩
          { column := "firstname", operator := .eq, value := some "Ann" }) {}
          (.compare ⟨["primarycontactid"], "firstname", false⟩ .eq (.literal "'Ann'")) {} := by
        with_unfolding_all rfl
      exact (gives_condition.mp h).1
  · refine (condition_bound_to_named_link rfl _ _ _).2.2 (fun x first => Or.inr ?_) {}
    rw [order] at first
    have hx := first.unique (y := ⟨[], employees, .ok ⟨"contact_customer_accounts", .toMany⟩⟩)
      ⟨by decide, [], [_], rfl, by simp⟩
    exact hx ▸ ⟨_, List.mem_singleton_self _, rfl⟩

end Compile

end FetchOData
