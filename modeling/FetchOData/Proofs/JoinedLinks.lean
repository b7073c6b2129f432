import FetchOData.Proofs.Coverage

namespace FetchOData

inductive Source.LeadsTo (source : Source σ) : σ → σ → Prop where
  | refl : Source.LeadsTo source s s
  | entity (rest : Source.LeadsTo source (source.entity name s).2 r) : Source.LeadsTo source s r
  | typeCode (rest : Source.LeadsTo source (source.typeCode code s).2 r) : Source.LeadsTo source s r

/-- Every record that the snapshot has under a name was given by the source under that name, now or
after some lookups. -/
def Source.Tells (source : Source σ) (s : σ) (t : Snapshot) : Prop :=
  ∀ name e, t.entity name = .ok e → ∃ r, source.LeadsTo s r ∧ (source.entity name r).1 = .ok e

namespace Inquiry

/-- With names answered from the snapshot and type codes in any way, the computation can come to the
value. -/
inductive CanGive (t : Snapshot) : Inquiry α → α → Prop where
  | done : CanGive t (.done a) a
  | entity (found : t.entity name = .ok e) (rest : CanGive t (next e) a) :
      CanGive t (.entity name next) a
  | typeCode (rest : CanGive t (next e) a) : CanGive t (.typeCode code next) a

theorem CanGive.of_bind {t : Snapshot} {x : Inquiry α} {f : α → Inquiry β} {b : β}
    (h : (x.bind f).CanGive t b) : ∃ a, x.CanGive t a ∧ (f a).CanGive t b := by
  induction x with
  | done a => exact ⟨a, .done, h⟩
  | fail fault => cases h
  | entity name next ih =>
    cases h with
    | entity found rest =>
      obtain ⟨a, ha, hb⟩ := ih _ rest
      exact ⟨a, .entity found ha, hb⟩
  | typeCode code next ih =>
    cases h with
    | typeCode rest =>
      obtain ⟨a, ha, hb⟩ := ih _ rest
      exact ⟨a, .typeCode ha, hb⟩

def Memo.snapshot (memo : Memo) : Snapshot where
  entity name :=
    match memo[name]? with
    | some e => .ok e
    | none => .error (.entityNotFound name)
  typeCode code := .error (.typeCodeNotFound code)

theorem Memo.snapshot_entity {memo : Memo} {name : String} {e : Schema.Entity} :
    memo.snapshot.entity name = .ok e ↔ memo[name]? = some e := by
  cases h : memo[name]? <;> simp [Memo.snapshot, h]

theorem Memo.getElem?_insert (memo : Memo) (name other : String) (e : Schema.Entity) :
    (memo.insert name e)[other]? = if name = other then some e else memo[other]? := by
  simp only [Std.TreeMap.getElem?_insert, Std.LawfulEqCmp.compare_eq_iff_eq]

/-- A run that succeeds has been told records, one for each name, that lead to its value. -/
theorem canGive_of_runOnce {source : Source σ} (x : Inquiry α) {memo : Memo} {s s' : σ} {a : α}
    (h : x.runOnce source memo s = (.ok a, s')) :
    ∃ told : Memo, x.CanGive told.snapshot a ∧
      (∀ (name : String) e, memo[name]? = some e → told[name]? = some e) ∧
      ∀ (name : String) e, told[name]? = some e → memo[name]? = some e ∨
        ∃ r, source.LeadsTo s r ∧ (source.entity name r).1 = .ok e := by
  induction x generalizing memo s with
  | done value =>
    cases h
    exact ⟨memo, .done, fun _ _ h => h, fun _ _ h => Or.inl h⟩
  | fail fault => cases h
  | entity name next ih =>
    rw [runOnce] at h
    cases hf : memo[name]? with
    | some e =>
      rw [hf] at h
      obtain ⟨told, can, kept, given⟩ := ih e h
      exact ⟨told, .entity (Memo.snapshot_entity.mpr (kept name e hf)) can, kept, given⟩
    | none =>
      rw [hf] at h
      cases he : source.entity name s with
      | mk found s₁ =>
        rw [he] at h
        cases found with
        | error cause => cases h
        | ok e =>
          obtain ⟨told, can, kept, given⟩ := ih e h
          have own : told[name]? = some e :=
            kept name e (by rw [Memo.getElem?_insert, if_pos rfl])
          refine ⟨told, .entity (Memo.snapshot_entity.mpr own) can, ?_, ?_⟩
          · intro other record hr
            have apart : name ≠ other := by
              rintro rfl
              rw [hf] at hr
              cases hr
            apply kept
            rw [Memo.getElem?_insert, if_neg apart, hr]
          · intro other record hr
            rcases given other record hr with hm | ⟨r, leads, hg⟩
            · rw [Memo.getElem?_insert] at hm
              split at hm
              · rename_i same
                subst same
                cases hm
                exact Or.inr ⟨s, .refl, by rw [he]⟩
              · exact Or.inl hm
            · exact Or.inr ⟨r, .entity (by rw [he]; exact leads), hg⟩
  | typeCode code next ih =>
    rw [runOnce] at h
    cases he : source.typeCode code s with
    | mk found s₁ =>
      rw [he] at h
      cases found with
      | error cause => cases h
      | ok e =>
        obtain ⟨told, can, kept, given⟩ := ih e h
        refine ⟨told, .typeCode can, kept, ?_⟩
        intro name record hr
        rcases given name record hr with hm | ⟨r, leads, hg⟩
        · exact Or.inl hm
        · exact Or.inr ⟨r, .typeCode (by rw [he]; exact leads), hg⟩

end Inquiry

namespace Compile
open Query OData

variable {t : Snapshot} {root : Query.Entity} {v v' : Variables}

def CanGive (t : Snapshot) (m : Compile α) (v : Variables) (a : α) (v' : Variables) : Prop :=
  (m v).CanGive t (a, v')

theorem CanGive.of_bind {m : Compile α} {f : α → Compile β} {b : β}
    (h : CanGive t (m >>= f) v b v') : ∃ a w, CanGive t m v a w ∧ CanGive t (f a) w b v' := by
  obtain ⟨⟨a, w⟩, hm, hf⟩ :=
    Inquiry.CanGive.of_bind (x := m v) (f := fun r => f r.1 r.2) h
  exact ⟨a, w, hm, hf⟩

theorem not_canGive_reject {fault : Fault} {a : α} : ¬ CanGive t (reject fault) v a v' := by
  rintro ⟨⟩

theorem CanGive.resolves {parent : String} {link : Link} {n : Navigation}
    (h : CanGive t (resolve parent link) v n v') : Resolves t parent link n := by
  obtain ⟨record, w, hr, h⟩ := h.of_bind
  cases hr with
  | entity found rest =>
    cases rest
    cases hn : navigate record parent link with
    | error cause =>
      rw [hn] at h
      exact absurd h not_canGive_reject
    | ok m =>
      rw [hn] at h
      cases h
      exact ⟨record, found, hn⟩

theorem CanGive.unordered {link goal : Link} {u : Unit}
    (h : CanGive t (rejectOrders link goal) v u v') :
    link.selection.orders ++ goal.selection.orders = [] := by
  unfold rejectOrders at h
  split at h
  · assumption
  · exact absurd h not_canGive_reject

theorem CanGive.passes {parent : String} {v v' : Variables} {ls : List Link} {es : List Expand}
    (h : CanGive t (expands root parent ls) v es v') : Passes t parent ls := by
  match ls with
  | [] => exact .nil
  | link :: links =>
    rw [expands] at h
    split at h
    · exact absurd h not_canGive_reject
    · rename_i kind
      have kind : link.join.kind.quantifier? = none := by simpa using kind
      split at h
      · obtain ⟨n, _, hn, h⟩ := h.of_bind
        obtain ⟨_, _, ho, h⟩ := h.of_bind
        obtain ⟨_, _, _, h⟩ := h.of_bind
        -- Whether the filters are compiled makes no difference to what follows them.
        have further : ∃ w inner w' rest w'',
            CanGive t (expands root (target n.route link).name (target n.route link).links) w
              inner w' ∧ CanGive t (expands root parent links) w' rest w'' := by
          split at h
          all_goals
            obtain ⟨_, _, _, h⟩ := h.of_bind
            obtain ⟨inner, _, hi, h⟩ := h.of_bind
            obtain ⟨rest, _, hr, _⟩ := h.of_bind
            exact ⟨_, inner, _, rest, _, hi, hr⟩
        obtain ⟨_, _, _, _, _, hi, hr⟩ := further
        exact .joined kind hn.resolves ho.unordered hi.passes hr.passes
      · rename_i bare
        exact .bare kind (by simpa using bare) h.passes
termination_by Link.sizes ls
decreasing_by
  all_goals first | exact sizes_target_links_lt .. | exact sizes_rest_lt ..

theorem passes_of_request {fetch : Fetch} {r : Request} (start : fetch.entity = some root)
    (h : (request fetch).CanGive t r) : Passes t root.name root.links := by
  unfold request at h
  split at h
  · rename_i admitted ha
    cases start.symm.trans (entity_of_admissible ha)
    rw [StateT.run'_eq, ← bind_pure_comp] at h
    obtain ⟨⟨_, _⟩, h, _⟩ := Inquiry.CanGive.of_bind h
    obtain ⟨_, _, _, h⟩ := CanGive.of_bind h
    obtain ⟨_, _, _, h⟩ := h.of_bind
    obtain ⟨_, _, _, h⟩ := h.of_bind
    obtain ⟨_, _, _, h⟩ := h.of_bind
    obtain ⟨_, _, he, _⟩ := h.of_bind
    exact he.passes
  · cases h

/-- Nothing that links bring into a query is ordered. -/
theorem Passes.orders_eq_nil {parent : String} {ls : List Link} {link : Link}
    (h : Passes t parent ls) (hb : link.Below ls) : link.selection.orders = [] := by
  obtain ⟨place, ms, walk, member | ⟨above, member, n, hn, hr, hl⟩⟩ := (Passes.visited hb).1 _ h
  · obtain ⟨_, bare | ⟨n, _, unordered, _⟩⟩ := (h.walk walk).member member
    · simp only [Link.hasContent, Selection.isEmpty] at bare
      grind
    · exact (List.append_eq_nil_iff.mp unordered).1
  · have content : above.hasContent = true :=
      Link.hasContent_of_mem_links (hl ▸ List.mem_singleton_self link)
    obtain ⟨_, bare | ⟨m, hm, unordered, _⟩⟩ := (h.walk walk).member member
    · simp [content] at bare
    · cases hn.unique hm
      have ht : target n.route above = link := by simp [target, hr, hl]
      rw [ht] at unordered
      exact (List.append_eq_nil_iff.mp unordered).2

theorem join_of_quantifier {kind : LinkKind} (h : kind.quantifier? = none) :
    kind = .inner ∨ kind = .outer := by
  cases kind with
  | inner => exact Or.inl rfl
  | outer => exact Or.inr rfl
  | related => cases h

end Compile

namespace WebQuery
open Query OData Compile

/-- The links of a query that converts pass, by what the source has told. -/
theorem passes_of_converts {source : Source σ} {s s' : σ} {base : String} {fetch : Fetch}
    {root : Query.Entity} {q : WebQuery} (start : fetch.entity = some root)
    (converts : ofFetch source base fetch s = (.ok q, s')) :
    ∃ t, source.Tells s t ∧ Passes t root.name root.links := by
  unfold ofFetch at converts
  split at converts
  · cases hx : (request fetch).runOnce source {} s with
    | mk answer s₁ =>
      rw [hx] at converts
      cases answer with
      | error fault => cases converts
      | ok r =>
        obtain ⟨told, can, _, given⟩ := Inquiry.canGive_of_runOnce _ hx
        refine ⟨told.snapshot, ?_, passes_of_request start can⟩
        intro name e he
        rcases given name e (Inquiry.Memo.snapshot_entity.mp he) with hm | hg
        · simp at hm
        · exact hg
  · cases converts

/-- A query with an order on one of its links, at any depth, has no conversion. -/
theorem ordered_link_fails (source : Source σ) (base : String) (s : σ) {fetch : Fetch}
    {root : Query.Entity} {link : Link} {order : Order} (start : fetch.entity = some root)
    (joined : link.Below root.links) (ordered : order ∈ link.selection.orders) :
    ∃ fault, (ofFetch source base fetch s).1 = .error fault := by
  cases h : ofFetch source base fetch s with
  | mk result s' =>
    cases result with
    | error fault => exact ⟨fault, rfl⟩
    | ok q =>
      obtain ⟨t, _, passes⟩ := passes_of_converts start h
      rw [passes.orders_eq_nil joined] at ordered
      cases ordered

def accountsAcross (lead : Link) : Query.Entity :=
  { name := "account",
    selection := { columns := [{ name := "accountid", aggregate := some .count }] },
    links := [{
      join := { entity := "accountleads", fromColumn := "accountid", toColumn := "accountid" },
      links := [lead] }] }

def orderedLead : Link :=
  { join := { entity := "lead", fromColumn := "leadid", toColumn := "leadid" },
    selection := { orders := [{ column := "subject" }] } }

/-- An order stands in the way also at the far end of an association, and of a summary. -/
theorem ordered_link_fails_orderedLead :
    ∃ fault, (ofFetch Catalog.source "org"
      { aggregate := true, entity := some (accountsAcross orderedLead) } Catalog.sample).1 =
        .error fault :=
  ordered_link_fails Catalog.source "org" Catalog.sample rfl
    (.deeper List.mem_cons_self (.here List.mem_cons_self)) List.mem_cons_self

/-- In a query that converts, the walk through it comes by every link, or crosses over to it from an
intersect entity. All that the walk comes by are inner or outer links. -/
theorem links_join_unless_crossed {source : Source σ} {s s' : σ} {base : String} {fetch : Fetch}
    {root : Query.Entity} {q : WebQuery} (start : fetch.entity = some root)
    (converts : ofFetch source base fetch s = (.ok q, s')) :
    ∃ t, source.Tells s t ∧
      (∀ link, link.Below root.links →
        ∃ place ms, Walk t root.name root.links place ms ∧ (link ∈ ms ∨ Hop t link place ms)) ∧
      ∀ place ms link, Walk t root.name root.links place ms → link ∈ ms →
        link.join.kind = .inner ∨ link.join.kind = .outer := by
  obtain ⟨t, tells, passes⟩ := passes_of_converts start converts
  refine ⟨t, tells, ?_, ?_⟩
  · intro link joined
    exact (Passes.visited joined).1 _ passes
  · intro place ms link walk member
    exact join_of_quantifier ((passes.walk walk).member member).1

def anyLead : Link :=
  { join := { entity := "lead", fromColumn := "leadid", toColumn := "leadid",
              kind := .related .any false } }

/-- A link that joins nothing passes at the far end of an association. -/
theorem links_join_unless_crossed_anyLead :
    ∃ q c t, ofFetch Catalog.source "org" { entity := some (accountsAcross anyLead) }
        Catalog.sample = (.ok q, c) ∧
      Catalog.source.Tells Catalog.sample t ∧ ∃ place ms, Hop t anyLead place ms := by
  have converts : ofFetch Catalog.source "org" { entity := some (accountsAcross anyLead) }
      Catalog.sample =
        (.ok ⟨"org/accounts?$select=accountid&$expand=accountleads_association" ++
          "&$filter=(accountleads_association/any(o1:(o1/leadid ne null)))", []⟩, _) :=
    Prod.ext (by decide +kernel) rfl
  obtain ⟨t, tells, visited, join⟩ := links_join_unless_crossed rfl converts
  obtain ⟨place, ms, walk, member | hop⟩ := visited anyLead
    (.deeper List.mem_cons_self (.here List.mem_cons_self))
  · rcases join place ms anyLead walk member with h | h <;> cases h
  · exact ⟨_, _, t, converts, tells, place, ms, hop⟩

end WebQuery

end FetchOData
