import FetchOData.Proofs.Transparency

namespace FetchOData

namespace Cache

theorem byName_remember (c : Cache σ) (e : Schema.Entity) (name : String) :
    (c.remember e).byName[name]? = if e.name = name then some e else c.byName[name]? := by
  simp only [remember, Std.TreeMap.getElem?_insert, Std.LawfulEqCmp.compare_eq_iff_eq]

theorem byCode_remember (c : Cache σ) (e : Schema.Entity) (code : Int32) :
    (c.remember e).byCode[code]? = if e.typeCode = some code then some e else c.byCode[code]? := by
  unfold remember
  cases e.typeCode with
  | none => simp
  | some own =>
    simp only [Std.TreeMap.getElem?_insert, Std.LawfulEqCmp.compare_eq_iff_eq, Option.some.injEq]

/-- Every record that is held is one of those given, under its own name or its own type code. With
one under a type code there is one under its name, and the two are the same if they have the same
type code. -/
structure Indexed (Given : Schema.Entity → Prop) (c : Cache σ) : Prop where
  byName (h : c.byName[name]? = some e) : Given e ∧ e.name = name
  byCode (h : c.byCode[code]? = some e) : Given e ∧ e.typeCode = some code
  paired {e : Schema.Entity} (h : c.byCode[code]? = some e) :
    ∃ e' : Schema.Entity, c.byName[e.name]? = some e' ∧ (e'.typeCode = some code → e' = e)

variable {Given : Schema.Entity → Prop}

theorem indexed_clear (c : Cache σ) : c.clear.Indexed Given where
  byName h := by simp [clear] at h
  byCode h := by simp [clear] at h
  paired h := by simp [clear] at h

theorem Indexed.remember {c : Cache σ} (h : c.Indexed Given) {e : Schema.Entity} (he : Given e) :
    (c.remember e).Indexed Given where
  byName := by
    intro name found hf
    rw [byName_remember] at hf
    split at hf
    · rename_i own
      cases hf
      exact ⟨he, own⟩
    · exact h.byName hf
  byCode := by
    intro code found hf
    rw [byCode_remember] at hf
    split at hf
    · rename_i own
      cases hf
      exact ⟨he, own⟩
    · exact h.byCode hf
  paired := by
    intro code found hf
    rw [byCode_remember] at hf
    split at hf
    · cases hf
      exact ⟨e, by simp [byName_remember], fun _ => rfl⟩
    · rename_i other
      by_cases same : e.name = found.name
      -- The new record takes the place under the name, but not under the old type code.
      · exact ⟨e, by simp [byName_remember, same], fun hc => absurd hc other⟩
      · obtain ⟨e', hn, hc⟩ := h.paired hf
        exact ⟨e', by simp [byName_remember, same, hn], hc⟩

theorem Indexed.receive {c : Cache σ} (h : c.Indexed Given) {answer : Found × σ}
    (given : ∀ e, answer.1 = .ok e → Given e) : (c.receive answer).2.Indexed Given := by
  obtain ⟨found, s⟩ := answer
  have hs : ({ c with inner := s } : Cache σ).Indexed Given := ⟨h.byName, h.byCode, h.paired⟩
  cases found with
  | error fault => exact hs
  | ok e => exact hs.remember (given e rfl)

/-- Lookups keep the indexes in order, whatever the source behind the cache gives. -/
theorem source_keeps_indexed {inner : Source σ} {Good : σ → Prop} (keeps : inner.Keeps Good)
    (entity : ∀ name s e, Good s → (inner.entity name s).1 = .ok e → Given e)
    (typeCode : ∀ code s e, Good s → (inner.typeCode code s).1 = .ok e → Given e) :
    (Cache.source inner).Keeps fun c => Good c.inner ∧ c.Indexed Given where
  entity name hs := by
    refine ⟨(source_keeps keeps).entity name hs.1, ?_⟩
    simp only [Cache.source]
    split
    · exact hs.2
    · exact hs.2.receive fun e he => entity name _ e hs.1 he
  typeCode code hs := by
    refine ⟨(source_keeps keeps).typeCode code hs.1, ?_⟩
    simp only [Cache.source]
    split
    · exact hs.2
    · exact hs.2.receive fun e he => typeCode code _ e hs.1 he

end Cache

namespace Catalog

theorem mem_records_insert {c : Catalog} {record e : Schema.Entity}
    (h : e ∈ (c.insert record).records) : e = record ∨ e ∈ c.records := by
  obtain ⟨name, hn⟩ := mem_records.mp h
  rw [getElem?_insert] at hn
  split at hn
  · exact Or.inl (Option.some.inj hn).symm
  · exact Or.inr (mem_records.mpr ⟨name, hn⟩)

theorem mem_of_mem_records_ofList {es : List Schema.Entity} {e : Schema.Entity}
    (h : e ∈ (ofList es).records) : e ∈ es := by
  have step (es : List Schema.Entity) (c : Catalog) (h : e ∈ (es.foldl insert c).records) :
      e ∈ es ∨ e ∈ c.records := by
    induction es generalizing c with
    | nil => exact Or.inr h
    | cons first es ih =>
      rcases ih _ h with hm | hm
      · exact Or.inl (List.mem_cons_of_mem _ hm)
      · rcases mem_records_insert hm with rfl | hm
        · exact Or.inl List.mem_cons_self
        · exact Or.inr hm
  rcases step es {} h with hm | hm
  · exact hm
  · simp [mem_records] at hm

end Catalog

namespace Session

variable {Given : Schema.Entity → Prop}

structure Stocked (Given : Schema.Entity → Prop) (s : Session) : Prop where
  catalog (h : e ∈ s.catalog.records) : Given e
  indexed : s.store.Indexed Given

theorem source_keeps_indexed (cached : Bool) {c : Catalog} (given : ∀ e ∈ c.records, Given e) :
    (source cached).Keeps fun store => store.inner.inner = c ∧ store.Indexed Given := by
  cases cached with
  | true =>
    apply Cache.source_keeps_indexed (metered_answersIn c).toKeeps
    · intro name m e hm he
      rw [(metered_answersIn c).entity_eq name hm] at he
      exact given e (Catalog.mem_records.mpr ⟨name, Catalog.entity_eq_ok_iff.mp he⟩)
    · intro code m e hm he
      rw [(metered_answersIn c).typeCode_eq code hm] at he
      exact given e (Catalog.mem_of_typeCode he).1
  | false =>
    constructor
    · intro store name hs
      exact ⟨(bare_answersIn c).entity name hs.1, hs.2.byName, hs.2.byCode, hs.2.paired⟩
    · intro store code hs
      exact ⟨(bare_answersIn c).typeCode code hs.1, hs.2.byName, hs.2.byCode, hs.2.paired⟩

theorem Stocked.step {s : Session} (h : s.Stocked Given) {op : Step}
    (given : ∀ record, op = .insert record → Given record) : (s.step op).2.Stocked Given := by
  have keeps := source_keeps_indexed s.cached fun e he => h.catalog he
  refine ⟨?_, ?_⟩
  · intro e he
    rw [s.step_catalog] at he
    cases op with
    | insert record =>
      rcases Catalog.mem_records_insert he with rfl | he
      · exact given e rfl
      · exact h.catalog he
    | _ => exact h.catalog he
  · cases op with
    | entity name => exact (keeps.entity name ⟨rfl, h.indexed⟩).2
    | typeCode code => exact (keeps.typeCode code ⟨rfl, h.indexed⟩).2
    | connected => exact h.indexed
    | setConnected value => exact ⟨h.indexed.byName, h.indexed.byCode, h.indexed.paired⟩
    | insert record => exact ⟨h.indexed.byName, h.indexed.byCode, h.indexed.paired⟩
    | clear => exact Cache.indexed_clear _
    | convert fetch => exact (WebQuery.ofFetch_keeps keeps ⟨rfl, h.indexed⟩ s.base fetch).2
    | convertToUrl fetch => exact (WebQuery.ofFetch_keeps keeps ⟨rfl, h.indexed⟩ s.base fetch).2

def inserted (ops : List Step) : List Schema.Entity :=
  ops.filterMap fun
    | .insert record => some record
    | _ => none

theorem Stocked.run {s : Session} (h : s.Stocked Given) {ops : List Step}
    (given : ∀ record ∈ inserted ops, Given record) : (s.run ops).2.Stocked Given := by
  induction ops generalizing s with
  | nil => exact h
  | cons op ops ih =>
    apply ih
    · apply h.step
      rintro record rfl
      exact given record (by simp [inserted])
    · intro record hr
      apply given record
      cases op with
      | insert first => exact List.mem_cons_of_mem _ hr
      | _ => exact hr

theorem stocked_ofCatalog {es : List Schema.Entity} (given : ∀ e ∈ es, Given e) (base : String)
    (cached : Bool) : (ofCatalog (.ofList es) base cached).Stocked Given where
  catalog he := given _ (Catalog.mem_of_mem_records_ofList he)
  indexed := Cache.indexed_clear (ofCatalog (.ofList es) base cached).store

theorem run_cached (s : Session) (ops : List Step) : (s.run ops).2.cached = s.cached := by
  induction ops generalizing s with
  | nil => rfl
  | cons op ops ih => exact (ih _).trans (s.step_settings op).1

/-- After any steps, with a record under a type code there is one of the same name under that name.
They are the same, and found by either lookup, exactly if the one under the name still has that type
code; so they always are, if no record is replaced by one with another type code. -/
theorem indexes_agree_unless_recoded (records : List Schema.Entity) (base : String)
    (ops : List Step) {s : Session} {code : Int32} {e : Schema.Entity}
    (reached : ((ofCatalog (.ofList records) base true).run ops).2 = s)
    (held : s.store.byCode[code]? = some e) :
    e.typeCode = some code ∧ ∃ e', s.store.byName[e.name]? = some e' ∧ e'.name = e.name ∧
      (s.step (.typeCode code)).1 = .record (.ok e) ∧
      (s.step (.entity e.name)).1 = .record (.ok e') ∧
      (e' = e ↔ e'.typeCode = some code) ∧
      ((∀ a ∈ records ++ inserted ops, ∀ b ∈ records ++ inserted ops,
        a.name = b.name → a.typeCode = b.typeCode) → e' = e) := by
  have start : (ofCatalog (.ofList records) base true).Stocked (· ∈ records ++ inserted ops) :=
    stocked_ofCatalog (fun e he => List.mem_append_left _ he) base true
  have cached : s.cached = true := reached ▸ run_cached _ ops
  have stocked := start.run fun record hr => List.mem_append_right records hr
  rw [reached] at stocked
  obtain ⟨given, own⟩ := stocked.indexed.byCode held
  obtain ⟨e', named, same⟩ := stocked.indexed.paired held
  obtain ⟨given', name⟩ := stocked.indexed.byName named
  refine ⟨own, e', named, name, ?_, ?_, ⟨fun he => he ▸ own, same⟩, ?_⟩
  · simp [step, source, cached, Cache.source, held]
  · simp [step, source, cached, Cache.source, named]
  · intro coded
    exact same ((coded e' given' e given name).trans own)

def accountRecord (code : Int32) : Schema.Entity :=
  { name := "account", setName := some "accounts", primaryKey := "accountid",
    typeCode := some code }

/-- A record that was looked up by its name is found by its type code as well. -/
theorem indexes_agree_unless_recoded_accountRecord :
    (((ofCatalog (.ofList [accountRecord 1]) "org" true).run [.entity "account"]).2.step
        (.typeCode 1)).1 = .record (.ok (accountRecord 1)) ∧
      (((ofCatalog (.ofList [accountRecord 1]) "org" true).run [.entity "account"]).2.step
        (.entity "account")).1 = .record (.ok (accountRecord 1)) := by
  have held : ((ofCatalog (.ofList [accountRecord 1]) "org" true).run
      [.entity "account"]).2.store.byCode[(1 : Int32)]? = some (accountRecord 1) := by
    decide +kernel
  obtain ⟨_, e', _, _, code, name, _, same⟩ :=
    indexes_agree_unless_recoded [accountRecord 1] "org" [.entity "account"] rfl held
  cases same (by decide +kernel)
  exact ⟨code, name⟩

/-- A record with another type code, found by that, leaves the old one under the old type code. -/
theorem recoded_account_held_twice :
    (∀ n ≤ 3, ((ofCatalog (.ofList [accountRecord 1]) "org" true).run
      (([.entity "account", .insert (accountRecord 2), .typeCode 2] : List Step).take
        n)).2.catalog.UniqueCodes) ∧
      ∃ s, ((ofCatalog (.ofList [accountRecord 1]) "org" true).run
          [.entity "account", .insert (accountRecord 2), .typeCode 2]).2 = s ∧
        s.store.byCode[(1 : Int32)]? = some (accountRecord 1) ∧
        s.store.byName["account"]? = some (accountRecord 2) ∧
        accountRecord 1 ≠ accountRecord 2 := by
  unfold Catalog.UniqueCodes
  exact ⟨by decide +kernel, _, rfl, by decide +kernel⟩

end Session

end FetchOData
