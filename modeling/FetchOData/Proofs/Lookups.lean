import FetchOData.Proofs.Snapshot

namespace FetchOData

structure Logged (σ : Type) where
  inner : σ
  names : List String := []
  codes : List Int32 := []

def Source.logged (source : Source σ) : Source (Logged σ) where
  connected l := source.connected l.inner
  entity name l :=
    let (found, s) := source.entity name l.inner
    (found, { l with inner := s, names := l.names ++ [name] })
  typeCode code l :=
    let (found, s) := source.typeCode code l.inner
    (found, { l with inner := s, codes := l.codes ++ [code] })

@[simp] theorem Source.logged_entity (source : Source σ) (name : String) (l : Logged σ) :
    source.logged.entity name l =
      ((source.entity name l.inner).1,
        ⟨(source.entity name l.inner).2, l.names ++ [name], l.codes⟩) := rfl

@[simp] theorem Source.logged_typeCode (source : Source σ) (code : Int32) (l : Logged σ) :
    source.logged.typeCode code l =
      ((source.typeCode code l.inner).1,
        ⟨(source.typeCode code l.inner).2, l.names, l.codes ++ [code]⟩) := rfl

theorem Source.logged_answersIn {source : Source σ} {t : Snapshot} {Good : σ → Prop}
    (h : source.AnswersIn t Good) : source.logged.AnswersIn t fun l => Good l.inner where
  entity name hs := h.entity name hs
  typeCode code hs := h.typeCode code hs
  entity_eq name hs := h.entity_eq name hs
  typeCode_eq code hs := h.typeCode_eq code hs

namespace Inquiry

/-- The names that a computation asks for when a snapshot answers, as often as it uses them. -/
def names (t : Snapshot) : Inquiry α → List String
  | done _ => []
  | fail _ => []
  | entity name next =>
    name ::
      match t.entity name with
      | .ok e => (next e).names t
      | .error _ => []
  | typeCode code next =>
    match t.typeCode code with
    | .ok e => (next e).names t
    | .error _ => []

def codes (t : Snapshot) : Inquiry α → List Int32
  | done _ => []
  | fail _ => []
  | entity name next =>
    match t.entity name with
    | .ok e => (next e).codes t
    | .error _ => []
  | typeCode code next =>
    code ::
      match t.typeCode code with
      | .ok e => (next e).codes t
      | .error _ => []

variable {source : Source σ} {t : Snapshot} {Good : σ → Prop}

theorem run_eq_answer (h : source.AnswersIn t Good) (x : Inquiry α) {s : σ} (hs : Good s) :
    (x.run source s).1 = x.answer t := by
  induction x generalizing s with
  | done value => rfl
  | fail fault => rfl
  | entity name next ih =>
    rw [run, h.entity_pair name hs, answer]
    cases t.entity name with
    | ok e => exact ih e (h.entity name hs)
    | error cause => rfl
  | typeCode code next ih =>
    rw [run, h.typeCode_pair code hs, answer]
    cases t.typeCode code with
    | ok e => exact ih e (h.typeCode code hs)
    | error cause => rfl

/-- Without the memo, every use of a name is a lookup. -/
theorem run_logged (h : source.AnswersIn t Good) (x : Inquiry α) {l : Logged σ}
    (hl : Good l.inner) :
    (x.run source.logged l).2.names = l.names ++ x.names t ∧
      (x.run source.logged l).2.codes = l.codes ++ x.codes t := by
  have hg := Source.logged_answersIn h
  induction x generalizing l with
  | done value => simp [run, names, codes]
  | fail fault => simp [run, names, codes]
  | entity name next ih =>
    rw [run, hg.entity_pair name hl, names, codes]
    cases t.entity name with
    | ok e =>
      have hn := ih e (hg.entity name hl)
      simpa using hn
    | error cause => simp
  | typeCode code next ih =>
    rw [run, hg.typeCode_pair code hl, names, codes]
    cases t.typeCode code with
    | ok e =>
      have hn := ih e (hg.typeCode code hl)
      simpa using hn
    | error cause => simp

theorem Memo.contains_insert (memo : Memo) (name n : String) (e : Schema.Entity) :
    Std.TreeMap.contains (memo.insert name e) n = (n == name || memo.contains n) := by
  rw [Std.TreeMap.contains_insert, Bool.eq_iff_iff, Bool.or_eq_true, Bool.or_eq_true,
    beq_iff_eq, beq_iff_eq, Std.LawfulEqCmp.compare_eq_iff_eq, eq_comm]

/-- With the memo, a lookup is the first use of a name that is not in it. -/
theorem runOnce_logged (h : source.AnswersIn t Good) (x : Inquiry α) {memo : Memo}
    {l : Logged σ} (hm : memo.Follows t) (hl : Good l.inner) :
    (x.runOnce source.logged memo l).2.names =
        l.names ++ ((x.names t).filter fun n => !memo.contains n).eraseDups ∧
      (x.runOnce source.logged memo l).2.codes = l.codes ++ x.codes t := by
  have hg := Source.logged_answersIn h
  induction x generalizing memo l with
  | done value => simp [runOnce, names, codes]
  | fail fault => simp [runOnce, names, codes]
  | entity name next ih =>
    rw [runOnce, hg.entity_pair name hl, names, codes]
    cases hf : memo[name]? with
    | some e =>
      have hn := ih e hm hl
      have held : memo.contains name = true := by
        simp [Std.TreeMap.contains_eq_isSome_getElem?, hf]
      simpa [hm name e hf, held] using hn
    | none =>
      have new : memo.contains name = false := by
        simp [Std.TreeMap.contains_eq_isSome_getElem?, hf]
      cases he : t.entity name with
      | ok e =>
        -- What the memo gains is the name itself, which its first use drops from the rest as well.
        have hn := ih e (hm.insert he) (hg.entity name hl)
        simp only [Memo.contains_insert, Bool.not_or] at hn
        simpa [new, List.eraseDups_cons, List.filter_filter] using hn
      | error cause => simp [new, List.eraseDups_cons]
  | typeCode code next ih =>
    rw [runOnce, hg.typeCode_pair code hl, names, codes]
    cases t.typeCode code with
    | ok e =>
      have hn := ih e hm (hg.typeCode code hl)
      simpa using hn
    | error cause => simp

/-- From nothing in the memo on, the names that are asked for are those that are used, in the order
of their first use. -/
theorem runOnce_eq_eraseDups (h : source.AnswersIn t Good) (x : Inquiry α) {s : σ} (hs : Good s) :
    (x.runOnce source.logged {} { inner := s }).2.names =
        (x.run source.logged { inner := s }).2.names.eraseDups ∧
      (x.runOnce source.logged {} { inner := s }).2.codes =
        (x.run source.logged { inner := s }).2.codes := by
  obtain ⟨names, codes⟩ := run_logged h x (l := { inner := s }) hs
  obtain ⟨first, same⟩ := runOnce_logged h x (l := { inner := s }) (Memo.follows_empty t) hs
  rw [names, codes, first, same]
  simp [List.filter_eq_self.mpr]

/-- Whatever the source answers, no name is asked for that the memo holds, and so none twice. -/
theorem names_nodup (source : Source σ) (x : Inquiry α) {memo : Memo} {l : Logged σ}
    (hl : l.names.Nodup) (held : ∀ n ∈ l.names, memo.contains n = true) :
    (x.runOnce source.logged memo l).2.names.Nodup := by
  induction x generalizing memo l with
  | done value => exact hl
  | fail fault => exact hl
  | entity name next ih =>
    rw [runOnce, Source.logged_entity]
    cases hf : memo[name]? with
    | some e => exact ih e hl held
    | none =>
      have new : name ∉ l.names := by
        intro hm
        have := held name hm
        simp [Std.TreeMap.contains_eq_isSome_getElem?, hf] at this
      have once : (l.names ++ [name]).Nodup := by
        refine List.nodup_append.mpr ⟨hl, by simp, ?_⟩
        rintro n hn _ hm rfl
        exact new (List.mem_singleton.mp hm ▸ hn)
      cases (source.entity name l.inner).1 with
      | error cause => exact once
      | ok e =>
        apply ih e once
        intro n hn
        rw [Memo.contains_insert, Bool.or_eq_true, beq_iff_eq]
        rcases List.mem_append.mp hn with hn | hn
        · exact Or.inr (held n hn)
        · exact Or.inl (List.mem_singleton.mp hn)
  | typeCode code next ih =>
    rw [runOnce, Source.logged_typeCode]
    cases (source.typeCode code l.inner).1 with
    | error cause => exact hl
    | ok e => exact ih e hl held

end Inquiry

namespace WebQuery

/-- The web query of a fetch, compiled by asking the source every time that a record is used. -/
def ofFetchAsking (source : Source σ) (base : String) (fetch : Query.Fetch) :
    StateM σ (Except Fault WebQuery) := fun s =>
  if source.connected s then
    let (answer, s) := (Compile.request fetch).run source s
    (answer.map (ofRequest base fetch), s)
  else (.error .notConnected, s)

theorem ofFetchAsking_eq_answer {source : Source σ} {t : Snapshot} {Good : σ → Prop}
    (h : source.AnswersIn t Good) {s : σ} (hs : Good s) (base : String) (fetch : Query.Fetch) :
    (ofFetchAsking source base fetch s).1 =
      if source.connected s then
        ((Compile.request fetch).answer t).map (ofRequest base fetch)
      else .error .notConnected := by
  have hr := Inquiry.run_eq_answer h (Compile.request fetch) hs
  unfold ofFetchAsking
  split
  · rw [← hr]
    rfl
  · rfl

/-- A conversion asks for a name once at most. -/
theorem ofFetch_names_nodup (source : Source σ) (base : String) (fetch : Query.Fetch) (s : σ) :
    (ofFetch source.logged base fetch { inner := s }).2.names.Nodup := by
  unfold ofFetch
  split
  · exact Inquiry.names_nodup source (Compile.request fetch) List.nodup_nil (by simp)
  · exact List.nodup_nil

theorem ofFetch_logged {source : Source σ} {t : Snapshot} {Good : σ → Prop}
    (h : source.AnswersIn t Good) {s : σ} (hs : Good s) (base : String) (fetch : Query.Fetch) :
    (ofFetch source.logged base fetch { inner := s }).2.names =
        (ofFetchAsking source.logged base fetch { inner := s }).2.names.eraseDups ∧
      (ofFetch source.logged base fetch { inner := s }).2.codes =
        (ofFetchAsking source.logged base fetch { inner := s }).2.codes := by
  unfold ofFetch ofFetchAsking
  split
  · exact Inquiry.runOnce_eq_eraseDups h (Compile.request fetch) hs
  · simp

/-- Against a source with fixed answers a conversion comes to the same, be it a web query or a
fault, as one that asks every time. Of what that one asks for, it leaves out the names that it has
asked for before, and nothing else. -/
theorem memo_unobservable {source : Source σ} {t : Snapshot} {s : σ} (fixed : source.Shows t s)
    (base : String) (fetch : Query.Fetch) :
    (ofFetch source base fetch s).1 = (ofFetchAsking source base fetch s).1 ∧
      (ofFetch source.logged base fetch { inner := s }).1 = (ofFetch source base fetch s).1 ∧
      (ofFetch source.logged base fetch { inner := s }).2.names.Nodup ∧
      (ofFetch source.logged base fetch { inner := s }).2.names =
        (ofFetchAsking source.logged base fetch { inner := s }).2.names.eraseDups ∧
      (ofFetch source.logged base fetch { inner := s }).2.codes =
        (ofFetchAsking source.logged base fetch { inner := s }).2.codes := by
  obtain ⟨Good, hs, h⟩ := fixed
  obtain ⟨names, codes⟩ := ofFetch_logged h hs base fetch
  have once := ofFetch_eq_answer h hs base fetch
  have asking := ofFetchAsking_eq_answer h hs base fetch
  have logged := ofFetch_eq_answer (Source.logged_answersIn h) (s := { inner := s }) hs base fetch
  exact ⟨once.trans asking.symm, logged.trans once.symm, ofFetch_names_nodup source base fetch s,
    names, codes⟩

def accountsWithContacts : Query.Entity :=
  { name := "account", selection := { columns := [{ name := "name" }] },
    links := [{
      join := { entity := "contact", fromColumn := "parentcustomerid", toColumn := "accountid",
                kind := .outer },
      selection := { columns := [{ name := "firstname" }] } }] }

/-- The record of accounts is used three times and asked for once. -/
theorem memo_unobservable_accountsWithContacts :
    (ofFetch Catalog.source "org" { entity := some accountsWithContacts } Catalog.sample).1 =
        (ofFetchAsking Catalog.source "org" { entity := some accountsWithContacts }
          Catalog.sample).1 ∧
      (ofFetchAsking Catalog.source.logged "org" { entity := some accountsWithContacts }
        { inner := Catalog.sample }).2.names = ["account", "account", "account", "contact"] ∧
      (ofFetch Catalog.source.logged "org" { entity := some accountsWithContacts }
        { inner := Catalog.sample }).2.names = ["account", "contact"] := by
  obtain ⟨same, _, _, names, _⟩ := memo_unobservable (Catalog.shows Catalog.sample) "org"
    { entity := some accountsWithContacts }
  have asking : (ofFetchAsking Catalog.source.logged "org" { entity := some accountsWithContacts }
      { inner := Catalog.sample }).2.names = ["account", "account", "account", "contact"] := by
    decide +kernel
  refine ⟨same, asking, ?_⟩
  rw [names, asking]
  rfl

end WebQuery

end FetchOData
