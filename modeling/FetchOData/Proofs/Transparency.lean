import Mathlib.Data.List.Pairwise
import Std.Data.TreeMap.Lemmas
import FetchOData.Session
import FetchOData.Proofs.Snapshot

namespace FetchOData

namespace Catalog

def Keyed (c : Catalog) : Prop :=
  ∀ (name : String) (e : Schema.Entity), c.entities[name]? = some e → e.name = name

def UniqueCodes (c : Catalog) : Prop :=
  (c.records.filterMap Schema.Entity.typeCode).Nodup

theorem UniqueCodes.eq {c : Catalog} (h : c.UniqueCodes) {e e' : Schema.Entity} {code : Int32}
    (he : e ∈ c.records) (he' : e' ∈ c.records) (hc : e.typeCode = some code)
    (hc' : e'.typeCode = some code) : e = e' := by
  have apart := List.pairwise_filterMap.mp h
  by_contra hne
  have symmetric : Std.Symm fun e e' : Schema.Entity =>
      ∀ code, e.typeCode = some code → ∀ code', e'.typeCode = some code' → code ≠ code' :=
    ⟨fun _ _ h code hc code' hc' => (h code' hc' code hc).symm⟩
  exact apart.forall he he' hne code hc code hc' rfl

theorem keyed_empty : Keyed {} := by
  intro name e h
  simp at h

theorem getElem?_insert (c : Catalog) (e : Schema.Entity) (name : String) :
    (c.insert e).entities[name]? = if e.name = name then some e else c.entities[name]? := by
  simp only [insert, Std.TreeMap.getElem?_insert, Std.LawfulEqCmp.compare_eq_iff_eq]

theorem Keyed.insert {c : Catalog} (h : c.Keyed) (e : Schema.Entity) : (c.insert e).Keyed := by
  intro name found hf
  rw [getElem?_insert] at hf
  split at hf
  · rename_i own
    rw [← Option.some.inj hf]
    exact own
  · exact h name found hf

theorem keyed_ofList (es : List Schema.Entity) : (ofList es).Keyed := by
  have step (es : List Schema.Entity) (c : Catalog) (h : c.Keyed) :
      (es.foldl Catalog.insert c).Keyed := by
    induction es generalizing c with
    | nil => exact h
    | cons e es ih => exact ih _ (h.insert e)
  exact step es {} keyed_empty

theorem mem_records {c : Catalog} {e : Schema.Entity} :
    e ∈ c.records ↔ ∃ name : String, c.entities[name]? = some e := by
  simp [records]

theorem entity_eq_ok_iff {c : Catalog} {name : String} {e : Schema.Entity} :
    c.entity name = .ok e ↔ c.entities[name]? = some e := by
  unfold entity
  cases c.entities[name]? <;> simp

theorem mem_of_typeCode {c : Catalog} {code : Int32} {e : Schema.Entity}
    (h : c.typeCode code = .ok e) : e ∈ c.records ∧ e.typeCode = some code := by
  unfold typeCode at h
  split at h
  · rename_i found hf
    cases h
    exact ⟨List.mem_of_find?_eq_some hf, by simpa using List.find?_some hf⟩
  · cases h

theorem exists_typeCode {c : Catalog} {code : Int32} {e : Schema.Entity} (he : e ∈ c.records)
    (hc : e.typeCode = some code) : ∃ found, c.typeCode code = .ok found := by
  unfold typeCode
  split
  · rename_i found _
    exact ⟨found, rfl⟩
  · rename_i hf
    simpa [hc] using List.find?_eq_none.mp hf e he

theorem typeCode_eq_ok_iff {c : Catalog} (unique : c.UniqueCodes) {code : Int32}
    {e : Schema.Entity} :
    c.typeCode code = .ok e ↔ e ∈ c.records ∧ e.typeCode = some code := by
  refine ⟨mem_of_typeCode, ?_⟩
  rintro ⟨hm, hc⟩
  obtain ⟨found, ht⟩ := exists_typeCode hm hc
  obtain ⟨hf, hcode⟩ := mem_of_typeCode ht
  rw [ht, unique.eq hf hm hcode hc]

end Catalog

structure Snapshot.Consistent (t : Snapshot) : Prop where
  name_eq (h : t.entity name = .ok e) : e.name = name
  typeCode (h : t.entity name = .ok e) (hc : e.typeCode = some code) : t.typeCode code = .ok e
  code_eq (h : t.typeCode code = .ok e) : e.typeCode = some code
  entity (h : t.typeCode code = .ok e) : t.entity e.name = .ok e

theorem Catalog.consistent {c : Catalog} (keyed : c.Keyed) (unique : c.UniqueCodes) :
    c.snapshot.Consistent where
  name_eq h := keyed _ _ (entity_eq_ok_iff.mp h)
  typeCode h hc := (typeCode_eq_ok_iff unique).mpr ⟨mem_records.mpr ⟨_, entity_eq_ok_iff.mp h⟩, hc⟩
  code_eq h := ((typeCode_eq_ok_iff unique).mp h).2
  entity h := by
    obtain ⟨name, hn⟩ := mem_records.mp ((typeCode_eq_ok_iff unique).mp h).1
    exact entity_eq_ok_iff.mpr (keyed _ _ hn ▸ hn)

namespace Cache

variable {t : Snapshot}

structure Coherent (c : Cache σ) (t : Snapshot) : Prop where
  byName (h : c.byName[name]? = some e) : t.entity name = .ok e
  byCode (h : c.byCode[code]? = some e) : t.typeCode code = .ok e

theorem coherent_clear (c : Cache σ) (t : Snapshot) : c.clear.Coherent t where
  byName h := by simp [clear] at h
  byCode h := by simp [clear] at h

theorem Coherent.remember {c : Cache σ} (h : c.Coherent t) {e : Schema.Entity}
    (name : t.entity e.name = .ok e)
    (code : ∀ code, e.typeCode = some code → t.typeCode code = .ok e) :
    (c.remember e).Coherent t where
  byName hf := by
    simp only [Cache.remember, Std.TreeMap.getElem?_insert] at hf
    split at hf
    · rename_i heq
      rw [← Option.some.inj hf, ← Std.LawfulEqCmp.eq_of_compare heq, name]
    · exact h.byName hf
  byCode hf := by
    simp only [Cache.remember] at hf
    split at hf
    · rename_i own hc
      rw [Std.TreeMap.getElem?_insert] at hf
      split at hf
      · rename_i heq
        rw [← Option.some.inj hf, ← Std.LawfulEqCmp.eq_of_compare heq, code own hc]
      · exact h.byCode hf
    · exact h.byCode hf

def Sound (t : Snapshot) (Good : σ → Prop) (c : Cache σ) : Prop :=
  Good c.inner ∧ c.Coherent t

theorem receive_fst (c : Cache σ) (answer : Found × σ) : (c.receive answer).1 = answer.1 := by
  obtain ⟨found, s⟩ := answer
  cases found <;> rfl

theorem receive_inner (c : Cache σ) (answer : Found × σ) :
    (c.receive answer).2.inner = answer.2 := by
  obtain ⟨found, s⟩ := answer
  cases found <;> rfl

theorem Sound.receive {Good : σ → Prop} {c : Cache σ} (h : c.Coherent t) {answer : Found × σ}
    (hs : Good answer.2) (hf : ∀ e, answer.1 = .ok e → t.entity e.name = .ok e ∧
      ∀ code, e.typeCode = some code → t.typeCode code = .ok e) :
    Sound t Good (c.receive answer).2 := by
  obtain ⟨found, s⟩ := answer
  have hc : ({ c with inner := s } : Cache σ).Coherent t := ⟨h.byName, h.byCode⟩
  cases found with
  | error fault => exact ⟨hs, hc⟩
  | ok e => exact ⟨hs, hc.remember (hf e rfl).1 (hf e rfl).2⟩

/-- In front of a source that answers from a consistent snapshot, a coherent cache answers from it
too and stays coherent. -/
theorem source_answersIn {inner : Source σ} {Good : σ → Prop} (h : inner.AnswersIn t Good)
    (consistent : t.Consistent) : (Cache.source inner).AnswersIn t (Sound t Good) where
  entity name hs := by
    simp only [Cache.source]
    split
    · exact hs
    · refine Sound.receive hs.2 (h.entity name hs.1) fun e he => ?_
      rw [h.entity_eq name hs.1] at he
      exact ⟨consistent.name_eq he ▸ he, fun code hc => consistent.typeCode he hc⟩
  typeCode code hs := by
    simp only [Cache.source]
    split
    · exact hs
    -- The record is remembered under its name as well, where the source must have it too.
    · refine Sound.receive hs.2 (h.typeCode code hs.1) fun e he => ?_
      rw [h.typeCode_eq code hs.1] at he
      have hn := consistent.entity he
      exact ⟨hn, fun code hc => consistent.typeCode hn hc⟩
  entity_eq name hs := by
    simp only [Cache.source]
    split
    · rename_i e he
      exact (hs.2.byName he).symm
    · rw [receive_fst, h.entity_eq name hs.1]
  typeCode_eq code hs := by
    simp only [Cache.source]
    split
    · rename_i e he
      exact (hs.2.byCode he).symm
    · rw [receive_fst, h.typeCode_eq code hs.1]

theorem source_keeps {inner : Source σ} {Good : σ → Prop} (h : inner.Keeps Good) :
    (Cache.source inner).Keeps fun c => Good c.inner where
  entity name hs := by
    simp only [Cache.source]
    split
    · exact hs
    · rw [receive_inner]
      exact h.entity name hs
  typeCode code hs := by
    simp only [Cache.source]
    split
    · exact hs
    · rw [receive_inner]
      exact h.typeCode code hs

theorem bypass_answersIn {inner : Source σ} {Good : σ → Prop} (h : inner.AnswersIn t Good) :
    (Cache.bypass inner).AnswersIn t fun c => Good c.inner where
  entity name hs := h.entity name hs
  typeCode code hs := h.typeCode code hs
  entity_eq name hs := h.entity_eq name hs
  typeCode_eq code hs := h.typeCode_eq code hs

end Cache

theorem Source.metered_answersIn {source : Source σ} {t : Snapshot} {Good : σ → Prop}
    (h : source.AnswersIn t Good) : source.metered.AnswersIn t fun m => Good m.inner where
  entity name hs := h.entity name hs
  typeCode code hs := h.typeCode code hs
  entity_eq name hs := h.entity_eq name hs
  typeCode_eq code hs := h.typeCode_eq code hs

namespace Session

theorem metered_answersIn (c : Catalog) :
    Catalog.source.metered.AnswersIn c.snapshot fun m => m.inner = c :=
  Source.metered_answersIn c.source_answersIn

theorem cached_answersIn {c : Catalog} (keyed : c.Keyed) (unique : c.UniqueCodes) :
    (source true).AnswersIn c.snapshot (Cache.Sound c.snapshot fun m => m.inner = c) :=
  Cache.source_answersIn (metered_answersIn c) (Catalog.consistent keyed unique)

theorem bare_answersIn (c : Catalog) :
    (source false).AnswersIn c.snapshot fun store => store.inner.inner = c :=
  Cache.bypass_answersIn (metered_answersIn c)

theorem source_keeps (cached : Bool) (c : Catalog) :
    (source cached).Keeps fun store => store.inner.inner = c := by
  cases cached with
  | true => exact Cache.source_keeps (metered_answersIn c).toKeeps
  | false => exact (bare_answersIn c).toKeeps

theorem source_connected (cached : Bool) (store : Store) :
    (source cached).connected store = store.inner.inner.connected := by
  cases cached <;> rfl

def Step.change : Step → Catalog → Catalog
  | .setConnected value, c => { c with connected := value }
  | .insert record, c => c.insert record
  | _, c => c

theorem step_catalog (s : Session) (op : Step) : (s.step op).2.catalog = op.change s.catalog := by
  cases op with
  | entity name => exact (source_keeps s.cached s.catalog).entity name rfl
  | typeCode code => exact (source_keeps s.cached s.catalog).typeCode code rfl
  | connected => rfl
  | setConnected value => rfl
  | insert record => rfl
  | clear => rfl
  | convert fetch =>
    exact WebQuery.ofFetch_keeps (source_keeps s.cached s.catalog) rfl s.base fetch
  | convertToUrl fetch =>
    exact WebQuery.ofFetch_keeps (source_keeps s.cached s.catalog) rfl s.base fetch

theorem step_settings (s : Session) (op : Step) :
    (s.step op).2.cached = s.cached ∧ (s.step op).2.base = s.base := by
  cases op <;> exact ⟨rfl, rfl⟩

theorem Step.keyed_change (op : Step) {c : Catalog} (h : c.Keyed) : (op.change c).Keyed := by
  cases op with
  | insert record => exact h.insert record
  | _ => exact h

def run (s : Session) : List Step → List Outcome × Session
  | [] => ([], s)
  | op :: ops =>
    let (outcome, s) := s.step op
    let (outcomes, s) := s.run ops
    (outcome :: outcomes, s)

/-- One session with the cache and one without, on the same catalog. -/
structure Beside (s b : Session) : Prop where
  cached : s.cached = true
  bare : b.cached = false
  base : s.base = b.base
  catalog : s.catalog = b.catalog
  keyed : s.catalog.Keyed

theorem beside_ofCatalog {c : Catalog} (keyed : c.Keyed) (base : String) :
    Beside (ofCatalog c base true) (ofCatalog c base false) :=
  ⟨rfl, rfl, rfl, rfl, keyed⟩

theorem Beside.step {s b : Session} (h : Beside s b) (op : Step) :
    Beside (s.step op).2 (b.step op).2 where
  cached := (s.step_settings op).1.trans h.cached
  bare := (b.step_settings op).1.trans h.bare
  base := by rw [(s.step_settings op).2, (b.step_settings op).2, h.base]
  catalog := by rw [s.step_catalog, b.step_catalog, h.catalog]
  keyed := by
    rw [s.step_catalog]
    exact op.keyed_change h.keyed

theorem Beside.run {s b : Session} (h : Beside s b) (ops : List Step) :
    Beside (s.run ops).2 (b.run ops).2 := by
  induction ops generalizing s b with
  | nil => exact h
  | cons op ops ih => exact ih (h.step op)

/-- The cache holds nothing that the catalog does not have, and could not come to. -/
structure Settled (s : Session) : Prop where
  unique : s.catalog.UniqueCodes
  coherent : s.store.Coherent s.catalog.snapshot

theorem Step.change_snapshot {op : Step} (still : ∀ record, op ≠ .insert record) (c : Catalog) :
    (op.change c).snapshot = c.snapshot ∧ (op.change c).records = c.records := by
  cases op with
  | insert record => exact absurd rfl (still record)
  | _ => exact ⟨rfl, rfl⟩

theorem Settled.sound {s : Session} (hs : s.Settled) :
    Cache.Sound s.catalog.snapshot (fun m => m.inner = s.catalog) s.store :=
  ⟨rfl, hs.coherent⟩

theorem Settled.answersIn {s b : Session} (h : Beside s b) (hs : s.Settled) :
    (source s.cached).AnswersIn s.catalog.snapshot
      (Cache.Sound s.catalog.snapshot fun m => m.inner = s.catalog) := by
  rw [h.cached]
  exact cached_answersIn h.keyed hs.unique

theorem Beside.answersIn {s b : Session} (h : Beside s b) :
    (source b.cached).AnswersIn s.catalog.snapshot fun store => store.inner.inner = s.catalog := by
  rw [h.bare]
  exact bare_answersIn s.catalog

theorem Settled.step {s b : Session} (h : Beside s b) (hs : s.Settled) {op : Step}
    (still : ∀ record, op ≠ .insert record) : (s.step op).2.Settled := by
  obtain ⟨hsnap, hrecords⟩ := Step.change_snapshot still s.catalog
  refine ⟨?_, ?_⟩
  · rw [s.step_catalog, Catalog.UniqueCodes, hrecords]
    exact hs.unique
  · rw [s.step_catalog, hsnap]
    have keeps := (hs.answersIn h).toKeeps
    cases op with
    | entity name => exact (keeps.entity name hs.sound).2
    | typeCode code => exact (keeps.typeCode code hs.sound).2
    | connected => exact hs.coherent
    | setConnected value => exact ⟨hs.coherent.byName, hs.coherent.byCode⟩
    | insert record => exact absurd rfl (still record)
    | clear => exact Cache.coherent_clear _ _
    | convert fetch => exact (WebQuery.ofFetch_keeps keeps hs.sound s.base fetch).2
    | convertToUrl fetch => exact (WebQuery.ofFetch_keeps keeps hs.sound s.base fetch).2

theorem Beside.connected_eq {s b : Session} (h : Beside s b) :
    (source s.cached).connected s.store = (source b.cached).connected b.store := by
  rw [source_connected, source_connected]
  exact congrArg Catalog.connected h.catalog

theorem Settled.converts_eq {s b : Session} (h : Beside s b) (hs : s.Settled)
    (fetch : Query.Fetch) :
    (WebQuery.ofFetch (source s.cached) s.base fetch s.store).1 =
      (WebQuery.ofFetch (source b.cached) b.base fetch b.store).1 := by
  rw [WebQuery.ofFetch_eq_answer (hs.answersIn h) hs.sound,
    WebQuery.ofFetch_eq_answer h.answersIn h.catalog.symm, h.connected_eq, h.base]

/-- A step through the cache comes out as it does without it. -/
theorem Settled.outcome_eq {s b : Session} (h : Beside s b) (hs : s.Settled) (op : Step) :
    (s.step op).1 = (b.step op).1 := by
  cases op with
  | entity name =>
    have hc := (hs.answersIn h).entity_eq name hs.sound
    have hb := h.answersIn.entity_eq name h.catalog.symm
    exact congrArg Outcome.record (hc.trans hb.symm)
  | typeCode code =>
    have hc := (hs.answersIn h).typeCode_eq code hs.sound
    have hb := h.answersIn.typeCode_eq code h.catalog.symm
    exact congrArg Outcome.record (hc.trans hb.symm)
  | connected => exact congrArg Outcome.connected h.connected_eq
  | setConnected value => rfl
  | insert record => rfl
  | clear => rfl
  | convert fetch => exact congrArg Outcome.query (hs.converts_eq h fetch)
  | convertToUrl fetch =>
    exact congrArg (fun result => Outcome.url (result >>= WebQuery.plainUrl))
      (hs.converts_eq h fetch)

theorem Settled.outcomes_eq {s b : Session} (h : Beside s b) (hs : s.Settled) {ops : List Step}
    (still : ∀ record, .insert record ∉ ops) : (s.run ops).1 = (b.run ops).1 := by
  induction ops generalizing s b with
  | nil => rfl
  | cons op ops ih =>
    have hop : ∀ record, op ≠ .insert record := fun record he => still record (by simp [he])
    have hops : ∀ record, .insert record ∉ ops := fun record hm =>
      still record (List.mem_cons_of_mem _ hm)
    have first := hs.outcome_eq h op
    have rest := ih (h.step op) (hs.step h hop) hops
    simp only [Session.run, first, rest]

theorem run_append (s : Session) (ops ops' : List Step) :
    (s.run (ops ++ ops')).2 = ((s.run ops).2.run ops').2 := by
  induction ops generalizing s with
  | nil => rfl
  | cons op ops ih => exact ih _

/-- From the start and from any clearing on, as long as nothing is inserted, every step comes out
through the cache as it does without it. -/
theorem cache_transparent (records : List Schema.Entity) (base : String) (before window : List Step)
    (fresh : before = [] ∨ ∃ earlier, before = earlier ++ [.clear])
    (unique : ((ofCatalog (.ofList records) base true).run before).2.catalog.UniqueCodes)
    (still : ∀ record, .insert record ∉ window) :
    (((ofCatalog (.ofList records) base true).run before).2.run window).1 =
      (((ofCatalog (.ofList records) base false).run before).2.run window).1 := by
  have beside := (beside_ofCatalog (Catalog.keyed_ofList records) base).run before
  refine Settled.outcomes_eq beside ⟨unique, ?_⟩ still
  rcases fresh with rfl | ⟨earlier, rfl⟩
  · exact Cache.coherent_clear (ofCatalog (.ofList records) base true).store _
  · rw [run_append]
    exact Cache.coherent_clear _ _

def contactRecord (setName : Option String) : Schema.Entity :=
  { name := "contact", primaryKey := "contactid", typeCode := some 2, setName }

/-- Lookups by name and by code and conversions, after a record that the cache held was replaced. -/
theorem cache_transparent_contactRecord :
    (((ofCatalog (.ofList [contactRecord none]) "org" true).run
        [.entity "contact", .insert (contactRecord (some "contacts")), .clear]).2.run
      [.typeCode 2, .entity "contact", .setConnected false, .clear, .entity "lead",
        .convert { entity := some { name := "contact" } }]).1 =
      (((ofCatalog (.ofList [contactRecord none]) "org" false).run
        [.entity "contact", .insert (contactRecord (some "contacts")), .clear]).2.run
      [.typeCode 2, .entity "contact", .setConnected false, .clear, .entity "lead",
        .convert { entity := some { name := "contact" } }]).1 := by
  refine cache_transparent _ _ _ _ (Or.inr ⟨[.entity "contact", .insert _], rfl⟩) ?_ (by simp)
  unfold Catalog.UniqueCodes
  decide +kernel

end Session

end FetchOData
