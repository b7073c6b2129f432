import Std.Data.TreeMap.Lemmas
import FetchOData.WebQuery
import FetchOData.Source.Catalog

namespace FetchOData

structure Snapshot where
  entity : String → Found
  typeCode : Int32 → Found

structure Source.Keeps (source : Source σ) (Good : σ → Prop) : Prop where
  entity (name : String) (hs : Good s) : Good (source.entity name s).2
  typeCode (code : Int32) (hs : Good s) : Good (source.typeCode code s).2

structure Source.AnswersIn (source : Source σ) (t : Snapshot) (Good : σ → Prop) : Prop
    extends source.Keeps Good where
  entity_eq (name : String) (hs : Good s) : (source.entity name s).1 = t.entity name
  typeCode_eq (code : Int32) (hs : Good s) : (source.typeCode code s).1 = t.typeCode code

theorem Source.AnswersIn.entity_pair {source : Source σ} {t : Snapshot} {Good : σ → Prop}
    (h : source.AnswersIn t Good) (name : String) {s : σ} (hs : Good s) :
    source.entity name s = (t.entity name, (source.entity name s).2) :=
  Prod.ext (h.entity_eq name hs) rfl

theorem Source.AnswersIn.typeCode_pair {source : Source σ} {t : Snapshot} {Good : σ → Prop}
    (h : source.AnswersIn t Good) (code : Int32) {s : σ} (hs : Good s) :
    source.typeCode code s = (t.typeCode code, (source.typeCode code s).2) :=
  Prod.ext (h.typeCode_eq code hs) rfl

/-- The source answers from the snapshot, in this state and in every one that lookups lead to. -/
def Source.Shows (source : Source σ) (t : Snapshot) (s : σ) : Prop :=
  ∃ Good, Good s ∧ source.AnswersIn t Good

def Catalog.snapshot (c : Catalog) : Snapshot :=
  ⟨c.entity, c.typeCode⟩

theorem Catalog.source_answersIn (c : Catalog) : Catalog.source.AnswersIn c.snapshot (· = c) where
  entity _ hs := hs
  typeCode _ hs := hs
  entity_eq name hs := congrArg (·.entity name) hs
  typeCode_eq code hs := congrArg (·.typeCode code) hs

theorem Catalog.shows (c : Catalog) : Catalog.source.Shows c.snapshot c :=
  ⟨(· = c), rfl, c.source_answersIn⟩

/-- Accounts and contacts that refer to each other, and leads that belong to accounts. -/
def Catalog.sample : Catalog :=
  let customers := Schema.Reference.named "contact_customer_accounts" "account" "accountid"
    "contact" "parentcustomerid"
  let primary := Schema.Reference.named "account_primarycontact" "contact" "contactid" "account"
    "primarycontactid"
  let leads := Schema.Association.named "accountleads_association" "accountleads"
    ("account", "accountid") ("lead", "leadid")
  let accounts : Schema.Entity :=
    { name := "account", setName := some "accounts", primaryKey := "accountid",
      typeCode := some 1,
      attributes := [⟨"accountid", .uniqueidentifier, [], none⟩, ⟨"name", .string, [], none⟩,
        .lookup "primarycontactid" ["contact"]],
      oneToMany := [customers], manyToOne := [primary], manyToMany := [leads] }
  let contacts : Schema.Entity :=
    { name := "contact", setName := some "contacts", primaryKey := "contactid",
      typeCode := some 2,
      attributes := [⟨"contactid", .uniqueidentifier, [], none⟩, ⟨"firstname", .string, [], none⟩],
      oneToMany := [primary], manyToOne := [customers] }
  ofList [accounts, contacts,
    { name := "lead", setName := some "leads", primaryKey := "leadid",
      attributes := [⟨"subject", .string, [], none⟩], manyToMany := [leads] },
    { name := "accountleads", setName := some "accountleadscollection",
      primaryKey := "accountleadid" }]

namespace Inquiry

def answer (t : Snapshot) : Inquiry α → Except Fault α
  | done value => .ok value
  | fail fault => .error fault
  | entity name next =>
    match t.entity name with
    | .ok e => (next e).answer t
    | .error cause => .error (.schema cause)
  | typeCode code next =>
    match t.typeCode code with
    | .ok e => (next e).answer t
    | .error cause => .error (.schema cause)

theorem answer_bind (t : Snapshot) (x : Inquiry α) (f : α → Inquiry β) :
    (x >>= f).answer t = x.answer t >>= fun a => (f a).answer t := by
  change (x.bind f).answer t = (x.answer t).bind fun a => (f a).answer t
  induction x with
  | done value => rfl
  | fail fault => rfl
  | entity name next ih =>
    simp only [bind, answer]
    cases t.entity name with
    | ok e => exact ih e
    | error cause => rfl
  | typeCode code next ih =>
    simp only [bind, answer]
    cases t.typeCode code with
    | ok e => exact ih e
    | error cause => rfl

def Memo.Follows (memo : Memo) (t : Snapshot) : Prop :=
  ∀ name e, memo[name]? = some e → t.entity name = .ok e

theorem Memo.follows_empty (t : Snapshot) : Memo.Follows {} t := by
  intro name e h
  simp at h

theorem Memo.Follows.insert {memo : Memo} {t : Snapshot} (h : memo.Follows t) {name : String}
    {e : Schema.Entity} (he : t.entity name = .ok e) : Memo.Follows (memo.insert name e) t := by
  intro other record hr
  rw [Std.TreeMap.getElem?_insert] at hr
  split at hr
  · rename_i heq
    rw [← Std.LawfulEqCmp.eq_of_compare heq, he, Option.some.inj hr]
  · exact h other record hr

theorem runOnce_keeps {source : Source σ} {Good : σ → Prop} (h : source.Keeps Good)
    (x : Inquiry α) (memo : Memo) {s : σ} (hs : Good s) : Good (x.runOnce source memo s).2 := by
  induction x generalizing memo s with
  | done value => exact hs
  | fail fault => exact hs
  | entity name next ih =>
    have hn := h.entity name hs
    simp only [runOnce]
    split
    · exact ih _ _ hs
    · split
      · rename_i heq
        rw [heq] at hn
        exact ih _ _ hn
      · rename_i heq
        rw [heq] at hn
        exact hn
  | typeCode code next ih =>
    have hn := h.typeCode code hs
    simp only [runOnce]
    split
    · rename_i heq
      rw [heq] at hn
      exact ih _ _ hn
    · rename_i heq
      rw [heq] at hn
      exact hn

/-- Asking for each name once makes no difference to what comes out. -/
theorem runOnce_eq_answer {source : Source σ} {t : Snapshot} {Good : σ → Prop}
    (h : source.AnswersIn t Good) (x : Inquiry α) {memo : Memo} {s : σ} (hm : memo.Follows t)
    (hs : Good s) : (x.runOnce source memo s).1 = x.answer t := by
  induction x generalizing memo s with
  | done value => rfl
  | fail fault => rfl
  | entity name next ih =>
    rw [runOnce, h.entity_pair name hs, answer]
    cases hf : memo[name]? with
    | some e =>
      rw [hm name e hf]
      exact ih e hm hs
    | none =>
      cases he : t.entity name with
      | ok e => exact ih e (hm.insert he) (h.entity name hs)
      | error cause => rfl
  | typeCode code next ih =>
    rw [runOnce, h.typeCode_pair code hs, answer]
    cases t.typeCode code with
    | ok e => exact ih e hm (h.typeCode code hs)
    | error cause => rfl

end Inquiry

theorem WebQuery.ofFetch_keeps {source : Source σ} {Good : σ → Prop} (h : source.Keeps Good)
    {s : σ} (hs : Good s) (base : String) (fetch : Query.Fetch) :
    Good (WebQuery.ofFetch source base fetch s).2 := by
  unfold WebQuery.ofFetch
  split
  · have hn := Inquiry.runOnce_keeps h (Compile.request fetch) {} hs
    exact hn
  · exact hs

/-- A conversion against a source that answers from a snapshot depends on the snapshot alone. -/
theorem WebQuery.ofFetch_eq_answer {source : Source σ} {t : Snapshot} {Good : σ → Prop}
    (h : source.AnswersIn t Good) {s : σ} (hs : Good s) (base : String) (fetch : Query.Fetch) :
    (WebQuery.ofFetch source base fetch s).1 =
      if source.connected s then
        ((Compile.request fetch).answer t).map (WebQuery.ofRequest base fetch)
      else .error .notConnected := by
  have hr := Inquiry.runOnce_eq_answer h (Compile.request fetch) (Inquiry.Memo.follows_empty t) hs
  unfold WebQuery.ofFetch
  split
  · rw [← hr]
    rfl
  · rfl

/-- A conversion that succeeds has compiled a request. -/
theorem WebQuery.request_of_converts {source : Source σ} {t : Snapshot} {s s' : σ}
    {base : String} {fetch : Query.Fetch} {q : WebQuery} (h : source.Shows t s)
    (converts : WebQuery.ofFetch source base fetch s = (.ok q, s')) :
    ∃ r, (Compile.request fetch).answer t = .ok r ∧ WebQuery.ofRequest base fetch r = q := by
  obtain ⟨Good, hs, h⟩ := h
  have hq := WebQuery.ofFetch_eq_answer h hs base fetch
  rw [converts] at hq
  split at hq
  · cases ha : (Compile.request fetch).answer t with
    | error fault => simp [ha, Except.map] at hq
    | ok r =>
      simp only [ha, Except.map, Except.ok.injEq] at hq
      exact ⟨r, rfl, hq.symm⟩
  · cases hq

namespace Compile

/-- Under a snapshot, a compilation that starts with `v` variables in use ends with a value and with
`v'` of them in use. -/
def Gives (t : Snapshot) (m : Compile α) (v : Variables) (a : α) (v' : Variables) : Prop :=
  (m v).answer t = .ok (a, v')

variable {t : Snapshot} {v v' : Variables}

@[simp] theorem gives_pure {a b : α} : Gives t (pure a) v b v' ↔ a = b ∧ v = v' := by
  change (Except.ok (a, v) : Except Fault _) = .ok (b, v') ↔ _
  simp

@[simp] theorem gives_bind {m : Compile α} {f : α → Compile β} {b : β} :
    Gives t (m >>= f) v b v' ↔ ∃ a w, Gives t m v a w ∧ Gives t (f a) w b v' := by
  have he : ((m >>= f) v).answer t = (m v).answer t >>= fun r => (f r.1 r.2).answer t :=
    Inquiry.answer_bind t (m v) fun r => f r.1 r.2
  simp only [Gives, he]
  cases (m v).answer t with
  | error fault => simp [bind, Except.bind]
  | ok r =>
    constructor
    · intro h
      exact ⟨r.1, r.2, rfl, h⟩
    · rintro ⟨a, w, hr, h⟩
      cases hr
      exact h

/-- A choice between two computations that go on in the same way. -/
theorem gives_ite_bind {p : Prop} [Decidable p] {m n : Compile α} {f : α → Compile β} {b : β} :
    Gives t (if p then m >>= f else n >>= f) v b v' ↔
      Gives t ((if p then m else n) >>= f) v b v' := by
  split <;> exact Iff.rfl

@[simp] theorem gives_reject {fault : Fault} {a : α} : ¬ Gives t (reject fault) v a v' := by
  simp [Gives, reject, Inquiry.answer]

@[simp] theorem gives_entity {name : String} {e : Schema.Entity} :
    Gives t (entity name) v e v' ↔ t.entity name = .ok e ∧ v = v' := by
  simp only [Gives, entity, Inquiry.answer]
  cases t.entity name <;> simp

@[simp] theorem gives_typeCode {code : Int32} {e : Schema.Entity} :
    Gives t (typeCode code) v e v' ↔ t.typeCode code = .ok e ∧ v = v' := by
  simp only [Gives, typeCode, Inquiry.answer]
  cases t.typeCode code <;> simp

@[simp] theorem gives_ofExcept {toFault : ε → Fault} {x : Except ε α} {a : α} :
    Gives t (ofExcept toFault x) v a v' ↔ x = .ok a ∧ v = v' := by
  cases x <;> simp [ofExcept]

@[simp] theorem gives_freshLambda {range : String} :
    Gives t freshLambda v range v' ↔
      range = "x" ++ Number.integerText (v.lambdas + 1) ∧
        v' = { v with lambdas := v.lambdas + 1 } := by
  simp [Gives, freshLambda, Inquiry.answer, eq_comm]

@[simp] theorem gives_freshJoin {range : String} :
    Gives t freshJoin v range v' ↔
      range = "o" ++ Number.integerText (v.joins + 1) ∧ v' = { v with joins := v.joins + 1 } := by
  simp [Gives, freshJoin, Inquiry.answer, eq_comm]

end Compile

end FetchOData
