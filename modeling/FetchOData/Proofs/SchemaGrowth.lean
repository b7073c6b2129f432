import FetchOData.Proofs.Coverage
import FetchOData.Proofs.Transparency

namespace FetchOData

/-- Whatever record one source gives, the other gives as well. The relation holds between the states
that the two are in, before the lookup and after it. -/
structure Source.ExtendedBy (source : Source σ) (larger : Source τ) (R : σ → τ → Prop) : Prop where
  entity (hs : R s r) (h : source.entity name s = (.ok e, s')) :
    ∃ r', larger.entity name r = (.ok e, r') ∧ R s' r'
  typeCode (hs : R s r) (h : source.typeCode code s = (.ok e, s')) :
    ∃ r', larger.typeCode code r = (.ok e, r') ∧ R s' r'

structure Snapshot.Le (t u : Snapshot) : Prop where
  entity (h : t.entity name = .ok e) : u.entity name = .ok e
  typeCode (h : t.typeCode code = .ok e) : u.typeCode code = .ok e

/-- Sources with fixed answers are related if their answers are. -/
theorem Source.AnswersIn.extendedBy {source : Source σ} {larger : Source τ} {t u : Snapshot}
    {Good : σ → Prop} {Fine : τ → Prop} (h : source.AnswersIn t Good) (k : larger.AnswersIn u Fine)
    (le : t.Le u) : source.ExtendedBy larger fun s r => Good s ∧ Fine r where
  entity := by
    rintro s r name e s' ⟨hs, hr⟩ he
    have hf := h.entity_eq name hs
    have hn := h.entity name hs
    rw [he] at hf hn
    exact ⟨_, by rw [k.entity_pair name hr, le.entity hf.symm], hn, k.entity name hr⟩
  typeCode := by
    rintro s r code e s' ⟨hs, hr⟩ he
    have hf := h.typeCode_eq code hs
    have hn := h.typeCode code hs
    rw [he] at hf hn
    exact ⟨_, by rw [k.typeCode_pair code hr, le.typeCode hf.symm], hn, k.typeCode code hr⟩

/-- A catalog that keeps all records, and holds no type code twice, has all the answers. -/
theorem Catalog.snapshot_le {c d : Catalog} (hc : c.Keyed) (hd : d.Keyed) (unique : d.UniqueCodes)
    (kept : ∀ e ∈ c.records, e ∈ d.records) : c.snapshot.Le d.snapshot where
  entity := by
    intro name e h
    have held := entity_eq_ok_iff.mp h
    obtain ⟨other, ho⟩ := mem_records.mp (kept e (mem_records.mpr ⟨name, held⟩))
    have same : other = name := (hd other e ho).symm.trans (hc name e held)
    exact entity_eq_ok_iff.mpr (same ▸ ho)
  typeCode := by
    intro code e h
    obtain ⟨member, hcode⟩ := mem_of_typeCode h
    exact (typeCode_eq_ok_iff unique).mpr ⟨kept e member, hcode⟩

namespace Inquiry

/-- A run that succeeds gets the same records from the larger source, and remembers the same. -/
theorem runOnce_extendedBy {source : Source σ} {larger : Source τ} {R : σ → τ → Prop}
    (h : source.ExtendedBy larger R) (x : Inquiry α) {memo : Memo} {s s' : σ} {r : τ} {a : α}
    (hs : R s r) (hx : x.runOnce source memo s = (.ok a, s')) :
    ∃ r', x.runOnce larger memo r = (.ok a, r') ∧ R s' r' := by
  induction x generalizing memo s r with
  | done value =>
    cases hx
    exact ⟨r, rfl, hs⟩
  | fail fault => cases hx
  | entity name next ih =>
    rw [runOnce] at hx ⊢
    cases hf : memo[name]? with
    | some e =>
      rw [hf] at hx
      exact ih e hs hx
    | none =>
      rw [hf] at hx
      cases he : source.entity name s with
      | mk found s₁ =>
        rw [he] at hx
        cases found with
        | error cause => cases hx
        | ok e =>
          obtain ⟨r₁, hr, hn⟩ := h.entity hs he
          rw [hr]
          exact ih e hn hx
  | typeCode code next ih =>
    rw [runOnce] at hx ⊢
    cases he : source.typeCode code s with
    | mk found s₁ =>
      rw [he] at hx
      cases found with
      | error cause => cases hx
      | ok e =>
        obtain ⟨r₁, hr, hn⟩ := h.typeCode hs he
        rw [hr]
        exact ih e hn hx

end Inquiry

namespace WebQuery

/-- A query that a source can be asked for converts to the same web query against a connected source
with more records. -/
theorem more_records_same_query {source : Source σ} {larger : Source τ} {R : σ → τ → Prop}
    {s s' : σ} {r : τ} {base : String} {fetch : Query.Fetch} {q : WebQuery}
    (grown : source.ExtendedBy larger R) (related : R s r) (connected : larger.connected r = true)
    (converts : ofFetch source base fetch s = (.ok q, s')) :
    ∃ r', ofFetch larger base fetch r = (.ok q, r') ∧ R s' r' := by
  unfold ofFetch at converts ⊢
  rw [if_pos connected]
  split at converts
  · cases hx : (Compile.request fetch).runOnce source {} s with
    | mk answer s₁ =>
      rw [hx] at converts
      cases answer with
      | error fault => cases converts
      | ok request =>
        obtain ⟨r', hr, hn⟩ := Inquiry.runOnce_extendedBy grown (Compile.request fetch) related hx
        cases converts
        exact ⟨r', by rw [hr]; rfl, hn⟩
  · cases converts

def tasks : Schema.Entity :=
  { name := "task", setName := some "tasks", primaryKey := "activityid", typeCode := some 4212 }

/-- Where there are tasks as well, accounts are asked for with their contacts in the same way. -/
theorem more_records_same_query_tasks :
    (∀ name e, Catalog.sample.entity name = .ok e →
        (Catalog.sample.insert tasks).entity name = .ok e) ∧
      ∃ q c d, q.url = "org/accounts?$expand=contact_customer_accounts(" ++
          "$expand=account_primarycontact($filter=((name eq null))))" ∧
        q.preferHeaders = ["odata.maxpagesize=50"] ∧
        ofFetch Catalog.source "org" { entity := some accountsOfContacts, count := some 50 }
          Catalog.sample = (.ok q, c) ∧
        ofFetch Catalog.source "org" { entity := some accountsOfContacts, count := some 50 }
          (Catalog.sample.insert tasks) = (.ok q, d) := by
  have keyed : Catalog.sample.Keyed := Catalog.keyed_ofList _
  have unique : (Catalog.sample.insert tasks).UniqueCodes := by
    unfold Catalog.UniqueCodes
    decide +kernel
  have le := Catalog.snapshot_le keyed (keyed.insert tasks) unique (by decide +kernel)
  have converts : ofFetch Catalog.source "org"
      { entity := some accountsOfContacts, count := some 50 } Catalog.sample =
        (.ok ⟨"org/accounts?$expand=contact_customer_accounts(" ++
          "$expand=account_primarycontact($filter=((name eq null))))",
          ["odata.maxpagesize=50"]⟩, _) :=
    Prod.ext (by decide +kernel) rfl
  obtain ⟨d, hd, _⟩ := more_records_same_query
    (Catalog.sample.source_answersIn.extendedBy (Catalog.sample.insert tasks).source_answersIn le)
    ⟨rfl, rfl⟩ rfl converts
  exact ⟨fun name e h => le.entity h, _, _, d, rfl, rfl, converts, hd⟩

end WebQuery

end FetchOData
