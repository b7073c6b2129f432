import FetchOData.Proofs.CacheIndexes

namespace FetchOData

structure Source.Extends (outer : Source τ) (inner : Source σ) (view : τ → σ) : Prop where
  connected (t : τ) : inner.connected (view t) = outer.connected t
  entity (name : String) (t : τ) :
    inner.entity name (view t) = ((outer.entity name t).1, view (outer.entity name t).2)
  typeCode (code : Int32) (t : τ) :
    inner.typeCode code (view t) = ((outer.typeCode code t).1, view (outer.typeCode code t).2)

section Extension
variable {outer : Source τ} {inner : Source σ} {view : τ → σ}

theorem Inquiry.runOnce_view (h : outer.Extends inner view) (x : Inquiry α) (memo : Memo) (t : τ) :
    x.runOnce inner memo (view t) =
      ((x.runOnce outer memo t).1, view (x.runOnce outer memo t).2) := by
  induction x generalizing memo t with
  | done value => rfl
  | fail fault => rfl
  | entity name next ih =>
    simp only [runOnce]
    cases memo[name]? with
    | some e => exact ih e memo t
    | none =>
      rw [h.entity name t]
      rcases outer.entity name t with ⟨found, t'⟩
      cases found with
      | ok e => exact ih e (memo.insert name e) t'
      | error cause => rfl
  | typeCode code next ih =>
    simp only [runOnce]
    rw [h.typeCode code t]
    rcases outer.typeCode code t with ⟨found, t'⟩
    cases found with
    | ok e => exact ih e memo t'
    | error cause => rfl

theorem WebQuery.ofFetch_view (h : outer.Extends inner view) (base : String)
    (fetch : Query.Fetch) (t : τ) :
    ofFetch inner base fetch (view t) =
      ((ofFetch outer base fetch t).1, view (ofFetch outer base fetch t).2) := by
  unfold ofFetch
  rw [h.connected t]
  split
  · rw [Inquiry.runOnce_view h]
    rfl
  · rfl

def Cache.withInner (view : τ → σ) (c : Cache τ) : Cache σ :=
  ⟨view c.inner, c.byName, c.byCode⟩

theorem Cache.receive_view (c : Cache τ) (found : Found) (t : τ) :
    (c.withInner view).receive (found, view t) =
      ((c.receive (found, t)).1, (c.receive (found, t)).2.withInner view) := by
  cases found <;> rfl

theorem Cache.source_extends (h : outer.Extends inner view) :
    (Cache.source outer).Extends (Cache.source inner) (Cache.withInner view) where
  connected c := h.connected c.inner
  entity name c := by
    have kept : (c.withInner view).byName = c.byName := rfl
    have below : (c.withInner view).inner = view c.inner := rfl
    simp only [Cache.source, kept, below, h.entity name c.inner, receive_view]
    cases c.byName[name]? <;> rfl
  typeCode code c := by
    have kept : (c.withInner view).byCode = c.byCode := rfl
    have below : (c.withInner view).inner = view c.inner := rfl
    simp only [Cache.source, kept, below, h.typeCode code c.inner, receive_view]
    cases c.byCode[code]? <;> rfl

theorem Cache.bypass_extends (h : outer.Extends inner view) :
    (Cache.bypass outer).Extends (Cache.bypass inner) (Cache.withInner view) where
  connected c := h.connected c.inner
  entity name c := by
    simp only [Cache.bypass, Source.within, Cache.withInner, h.entity name c.inner]
    rfl
  typeCode code c := by
    simp only [Cache.bypass, Source.within, Cache.withInner, h.typeCode code c.inner]
    rfl

end Extension

structure Answered (σ : Type) where
  inner : σ
  answers : List Found := []

/-- Keeps the answers that are failures as well. -/
def Source.answered (source : Source σ) : Source (Answered σ) where
  connected a := source.connected a.inner
  entity name a :=
    let (found, s) := source.entity name a.inner
    (found, ⟨s, a.answers ++ [found]⟩)
  typeCode code a :=
    let (found, s) := source.typeCode code a.inner
    (found, ⟨s, a.answers ++ [found]⟩)

theorem Source.answered_extends (source : Source σ) :
    source.answered.Extends source Answered.inner where
  connected _ := rfl
  entity _ _ := rfl
  typeCode _ _ := rfl

def fetched (answers : List Found) : List Schema.Entity :=
  answers.filterMap Except.toOption

def failures (answers : List Found) : Nat :=
  answers.countP fun answer => answer.toOption.isNone

theorem length_answers (answers : List Found) :
    answers.length = (fetched answers).length + failures answers := by
  induction answers with
  | nil => rfl
  | cons answer answers ih =>
    cases answer with
    | ok e =>
      have given : fetched (.ok e :: answers) = e :: fetched answers := rfl
      have same : failures (.ok e :: answers) = failures answers :=
        List.countP_cons_of_neg (by simp [Except.toOption])
      simp only [given, same, List.length_cons, ih]
      omega
    | error cause =>
      have same : fetched (.error cause :: answers) = fetched answers := rfl
      have more : failures (.error cause :: answers) = failures answers + 1 :=
        List.countP_cons_of_pos (by simp [Except.toOption])
      simp only [same, more, List.length_cons, ih]
      omega

theorem fetched_append (answers answers' : List Found) :
    fetched (answers ++ answers') = fetched answers ++ fetched answers' :=
  List.filterMap_append

namespace Cache

/-- The cache stands for the answers that its source has given: it holds every record under its
name, none was given twice, and where one has a type code something is held under that as well. -/
structure Accounts (t : Snapshot) (answers : List Found) (c : Cache σ) : Prop where
  size_eq : c.size = (fetched answers).length
  nodup : ((fetched answers).map Schema.Entity.name).Nodup
  held {e : Schema.Entity} (he : e ∈ fetched answers) : c.byName[e.name]? = some e
  byName {name : String} (hn : c.byName[name]? = some e) : t.entity name = .ok e
  byCode {name : String} {e : Schema.Entity} (hn : c.byName[name]? = some e)
    (hc : e.typeCode = some code) : (c.byCode[code]?).isSome

variable {t : Snapshot} {answers : List Found}

theorem accounts_clear (c : Cache σ) (t : Snapshot) : c.clear.Accounts t [] where
  size_eq := rfl
  nodup := List.nodup_nil
  held he := by cases he
  byName hn := by simp [clear] at hn
  byCode hn := by simp [clear] at hn

/-- What stands behind the cache does not count. -/
theorem Accounts.withInner {c : Cache τ} (h : c.Accounts t answers) (view : τ → σ) :
    (c.withInner view).Accounts t answers :=
  ⟨h.size_eq, h.nodup, h.held, h.byName, h.byCode⟩

/-- A failure is held nowhere. -/
theorem Accounts.refuse {c : Cache σ} (h : c.Accounts t answers) (cause : SchemaFault) :
    c.Accounts t (answers ++ [.error cause]) := by
  have same : fetched (answers ++ [.error cause]) = fetched answers := by
    rw [fetched_append]
    exact List.append_nil _
  exact ⟨same ▸ h.size_eq, same ▸ h.nodup, same ▸ h.held, h.byName, h.byCode⟩

/-- A record whose name is not held yet counts as one more. -/
theorem Accounts.remember {c : Cache σ} (h : c.Accounts t answers) {e : Schema.Entity}
    (given : t.entity e.name = .ok e) (new : c.byName[e.name]? = none) :
    (c.remember e).Accounts t (answers ++ [.ok e]) := by
  have more : fetched (answers ++ [.ok e]) = fetched answers ++ [e] := fetched_append ..
  have apart : ∀ d ∈ fetched answers, e.name ≠ d.name := by
    intro d hd same
    have held := h.held hd
    rw [← same, new] at held
    cases held
  have absent : ¬ e.name ∈ c.byName := by
    simp [Std.TreeMap.mem_iff_isSome_getElem?, new]
  refine ⟨?_, ?_, ?_, ?_, ?_⟩
  · change (c.byName.insert e.name e).size = _
    have size : c.byName.size = (fetched answers).length := h.size_eq
    simp [Std.TreeMap.size_insert, absent, more, size]
  · rw [more, List.map_append, List.nodup_append]
    refine ⟨h.nodup, by simp, ?_⟩
    intro name hn other ho same
    obtain ⟨d, hd, rfl⟩ := List.mem_map.mp hn
    simp only [List.map_cons, List.map_nil, List.mem_singleton] at ho
    exact apart d hd (ho ▸ same.symm)
  · intro d hd
    rw [more] at hd
    rw [byName_remember]
    rcases List.mem_append.mp hd with hd | hd
    · rw [if_neg (apart d hd)]
      exact h.held hd
    · rw [List.mem_singleton.mp hd, if_pos rfl]
  · intro d name hn
    rw [byName_remember] at hn
    by_cases same : e.name = name
    · rw [if_pos same] at hn
      cases hn
      exact same ▸ given
    · rw [if_neg same] at hn
      exact h.byName hn
  · intro code name d hn hc
    rw [byName_remember] at hn
    rw [byCode_remember]
    by_cases same : e.name = name
    · rw [if_pos same] at hn
      cases hn
      simp [hc]
    · rw [if_neg same] at hn
      by_cases own : e.typeCode = some code
      · simp [own]
      · rw [if_neg own]
        exact h.byCode hn hc

theorem Accounts.receive {c : Cache σ} (h : c.Accounts t answers) {found : Found}
    (new : ∀ e, found = .ok e → t.entity e.name = .ok e ∧ c.byName[e.name]? = none) (s : σ) :
    (c.receive (found, s)).2.Accounts t (answers ++ [found]) := by
  have hs := h.withInner fun _ => s
  cases found with
  | error cause => exact hs.refuse cause
  | ok e =>
    obtain ⟨given, absent⟩ := new e rfl
    exact hs.remember given absent

end Cache

structure Snapshot.Keyed (t : Snapshot) : Prop where
  name_eq (h : t.entity name = .ok e) : e.name = name
  code_eq (h : t.typeCode code = .ok e) : e.typeCode = some code
  entity (h : t.typeCode code = .ok e) : t.entity e.name = .ok e

theorem Catalog.Keyed.snapshot {c : Catalog} (keyed : c.Keyed) : c.snapshot.Keyed where
  name_eq h := keyed _ _ (entity_eq_ok_iff.mp h)
  code_eq h := (mem_of_typeCode h).2
  entity h := by
    obtain ⟨name, hn⟩ := mem_records.mp (mem_of_typeCode h).1
    exact entity_eq_ok_iff.mpr (keyed _ _ hn ▸ hn)

/-- A lookup keeps the account. It reaches the source only for a record that is not held: by its
name, because it was asked for by that name, or because what is held by the name has its type code,
which is then held too. -/
theorem Cache.source_accounts {inner : Source σ} {t : Snapshot} {Good : σ → Prop}
    (h : inner.AnswersIn t Good) (keyed : t.Keyed) (past : List Found) :
    (Cache.source inner.answered).Keeps fun c =>
      Good c.inner.inner ∧ c.Accounts t (past ++ c.inner.answers) where
  entity := by
    intro c name hs
    simp only [Cache.source]
    cases hn : c.byName[name]? with
    | some e => exact hs
    | none =>
      refine ⟨by rw [receive_inner]; exact h.entity name hs.1, ?_⟩
      rw [receive_inner]
      change Accounts t (past ++ (c.inner.answers ++ [(inner.entity name c.inner.inner).1])) _
      rw [← List.append_assoc]
      apply hs.2.receive
      intro e he
      rw [h.entity_eq name hs.1] at he
      have own := keyed.name_eq he
      exact ⟨own ▸ he, own ▸ hn⟩
  typeCode := by
    intro c code hs
    simp only [Cache.source]
    cases hn : c.byCode[code]? with
    | some e => exact hs
    | none =>
      refine ⟨by rw [receive_inner]; exact h.typeCode code hs.1, ?_⟩
      rw [receive_inner]
      change Accounts t (past ++ (c.inner.answers ++ [(inner.typeCode code c.inner.inner).1])) _
      rw [← List.append_assoc]
      apply hs.2.receive
      intro e he
      rw [h.typeCode_eq code hs.1] at he
      have given := keyed.entity he
      refine ⟨given, ?_⟩
      cases held : c.byName[e.name]? with
      | none => rfl
      | some e' =>
        have same := hs.2.byName held
        rw [given] at same
        cases same
        have coded := hs.2.byCode held (keyed.code_eq he)
        simp [hn] at coded

namespace Session

def answering (cached : Bool) : Source (Cache (Answered (Metered Catalog))) :=
  if cached then Cache.source Catalog.source.metered.answered
  else Cache.bypass Catalog.source.metered.answered

theorem answering_extends (cached : Bool) :
    (answering cached).Extends (source cached) (Cache.withInner Answered.inner) := by
  cases cached with
  | true => exact Cache.source_extends (Source.answered_extends _)
  | false => exact Cache.bypass_extends (Source.answered_extends _)

def unanswered (s : Session) : Cache (Answered (Metered Catalog)) :=
  s.store.withInner fun m => { inner := m }

/-- What the catalog answers in a step, to the lookups that reach it. -/
def answers (s : Session) : Step → List Found
  | .entity name => ((answering s.cached).entity name s.unanswered).2.inner.answers
  | .typeCode code => ((answering s.cached).typeCode code s.unanswered).2.inner.answers
  | .convert fetch | .convertToUrl fetch =>
    (WebQuery.ofFetch (answering s.cached) s.base fetch s.unanswered).2.inner.answers
  | _ => []

def answersAll (s : Session) : List Step → List Found
  | [] => []
  | op :: ops => s.answers op ++ (s.step op).2.answersAll ops

def Step.asks : Step → Bool
  | .entity _ | .typeCode _ | .convert _ | .convertToUrl _ => true
  | _ => false

/-- After a step that looks records up, what lookups keep holds of the store with the answers. -/
theorem exists_answered {s : Session} {Good : Cache (Answered (Metered Catalog)) → Prop}
    (keeps : (answering s.cached).Keeps Good) (hs : Good s.unanswered) {op : Step}
    (asks : op.asks = true) :
    ∃ w, Good w ∧ w.withInner Answered.inner = (s.step op).2.store ∧
      w.inner.answers = s.answers op := by
  have h := answering_extends s.cached
  cases op with
  | entity name =>
    have same := h.entity name s.unanswered
    exact ⟨_, keeps.entity name hs, (congrArg Prod.snd same).symm, rfl⟩
  | typeCode code =>
    have same := h.typeCode code s.unanswered
    exact ⟨_, keeps.typeCode code hs, (congrArg Prod.snd same).symm, rfl⟩
  | convert fetch =>
    have same := WebQuery.ofFetch_view h s.base fetch s.unanswered
    exact ⟨_, WebQuery.ofFetch_keeps keeps hs s.base fetch, (congrArg Prod.snd same).symm, rfl⟩
  | convertToUrl fetch =>
    have same := WebQuery.ofFetch_view h s.base fetch s.unanswered
    exact ⟨_, WebQuery.ofFetch_keeps keeps hs s.base fetch, (congrArg Prod.snd same).symm, rfl⟩
  | _ => cases asks

theorem metered_answered_keeps (n : Nat) :
    Catalog.source.metered.answered.Keeps fun a => a.inner.lookups = n + a.answers.length where
  entity := by
    intro a name hs
    change a.inner.lookups + 1 = n + (a.answers ++ [_]).length
    simp [hs]
    omega
  typeCode := by
    intro a code hs
    change a.inner.lookups + 1 = n + (a.answers ++ [_]).length
    simp [hs]
    omega

theorem answering_keeps (cached : Bool) (n : Nat) :
    (answering cached).Keeps fun w => w.inner.inner.lookups = n + w.inner.answers.length := by
  have counted := metered_answered_keeps n
  cases cached with
  | true => exact Cache.source_keeps counted
  | false => exact ⟨fun name hs => counted.entity name hs, fun code hs => counted.typeCode code hs⟩

/-- Every answer is to one lookup. -/
theorem step_lookups (s : Session) (op : Step) :
    (s.step op).2.lookups = s.lookups + (s.answers op).length := by
  by_cases asks : op.asks = true
  · obtain ⟨w, counted, same, answers⟩ :=
      exists_answered (answering_keeps s.cached s.lookups) rfl asks
    rw [← answers]
    rw [lookups, ← same]
    exact counted
  · cases op with
    | entity name => exact absurd rfl asks
    | typeCode code => exact absurd rfl asks
    | convert fetch => exact absurd rfl asks
    | convertToUrl fetch => exact absurd rfl asks
    | _ => rfl

theorem run_lookups (s : Session) (ops : List Step) :
    (s.run ops).2.lookups = s.lookups + (s.answersAll ops).length := by
  induction ops generalizing s with
  | nil => rfl
  | cons op ops ih =>
    change ((s.step op).2.run ops).2.lookups = _
    rw [ih, step_lookups, answersAll, List.length_append]
    omega

structure Accounted (past : List Found) (s : Session) : Prop where
  cached : s.cached = true
  keyed : s.catalog.Keyed
  accounts : s.store.Accounts s.catalog.snapshot past

theorem Accounted.step {past : List Found} {s : Session} (h : s.Accounted past) {op : Step}
    (still : ∀ record, op ≠ .insert record) (kept : op ≠ .clear) :
    (s.step op).2.Accounted (past ++ s.answers op) := by
  refine ⟨(s.step_settings op).1.trans h.cached, ?_, ?_⟩
  · rw [s.step_catalog]
    exact op.keyed_change h.keyed
  · rw [s.step_catalog, (Step.change_snapshot still s.catalog).1]
    by_cases asks : op.asks = true
    · have keeps := Cache.source_accounts (metered_answersIn s.catalog) h.keyed.snapshot past
      have start :
          s.unanswered.Accounts s.catalog.snapshot (past ++ s.unanswered.inner.answers) := by
        have none : past ++ s.unanswered.inner.answers = past := List.append_nil past
        rw [none]
        exact h.accounts.withInner _
      have through : answering s.cached = Cache.source Catalog.source.metered.answered := by
        rw [h.cached]
        rfl
      rw [← through] at keeps
      obtain ⟨w, ⟨_, counted⟩, same, answers⟩ := exists_answered keeps ⟨rfl, start⟩ asks
      rw [← answers, ← same]
      exact counted.withInner _
    · have nothing : s.answers op = [] := by
        cases op with
        | connected => rfl
        | setConnected value => rfl
        | insert record => rfl
        | clear => rfl
        | _ => exact absurd rfl asks
      rw [nothing, List.append_nil]
      cases op with
      | connected => exact h.accounts
      | setConnected value =>
        exact h.accounts.withInner fun m => { m with inner := { m.inner with connected := value } }
      | insert record => exact absurd rfl (still record)
      | clear => exact absurd rfl kept
      | _ => exact absurd rfl asks

theorem Accounted.run {past : List Found} {s : Session} (h : s.Accounted past) {ops : List Step}
    (still : ∀ record, .insert record ∉ ops) (kept : .clear ∉ ops) :
    (s.run ops).2.Accounted (past ++ s.answersAll ops) := by
  induction ops generalizing past s with
  | nil =>
    rw [answersAll, List.append_nil]
    exact h
  | cons op ops ih =>
    rw [answersAll, ← List.append_assoc]
    apply ih
    · apply h.step
      · intro record same
        exact still record (by simp [same])
      · intro same
        exact kept (by simp [same])
    · intro record hm
      exact still record (List.mem_cons_of_mem _ hm)
    · intro hm
      exact kept (List.mem_cons_of_mem _ hm)

end Session

theorem Cache.Indexed.isEmpty_iff {Given : Schema.Entity → Prop} {c : Cache σ}
    (h : c.Indexed Given) : c.isEmpty = true ↔ c.size = 0 := by
  have named : c.byName.isEmpty = true ↔ c.size = 0 := by
    simp [Std.TreeMap.isEmpty_eq_size_eq_zero, size]
  rw [isEmpty, Bool.and_eq_true, ← named]
  constructor
  · intro both
    exact both.1
  · intro none
    refine ⟨none, ?_⟩
    rw [Std.TreeMap.isEmpty_iff_forall_not_mem]
    intro code hm
    obtain ⟨e, he⟩ := Option.isSome_iff_exists.mp (Std.TreeMap.mem_iff_isSome_getElem?.mp hm)
    obtain ⟨e', held, _⟩ := h.paired he
    have absent := Std.TreeMap.isEmpty_iff_forall_not_mem.mp none e.name
    simp [Std.TreeMap.mem_iff_isSome_getElem?, held] at absent

namespace Session

/-- A cache is empty exactly if it holds no entity by name, whatever is looked up, inserted and
cleared. From the start and from any clearing on, as long as nothing is inserted, the lookups that
reach the catalog are as many as the entities held by name and the failures together, and no entity
is given twice, be it asked for by its name or by its type code. -/
theorem cache_accounting (records : List Schema.Entity) (base : String) :
    (∀ ops s, ((ofCatalog (.ofList records) base true).run ops).2 = s →
      (s.store.isEmpty = true ↔ s.store.size = 0)) ∧
    ∀ before window s s', (before = [] ∨ ∃ earlier, before = earlier ++ [.clear]) →
      (∀ record, .insert record ∉ window) → .clear ∉ window →
      ((ofCatalog (.ofList records) base true).run before).2 = s → (s.run window).2 = s' →
      s'.lookups = s.lookups + (s.answersAll window).length ∧
      (s.answersAll window).length = s'.store.size + failures (s.answersAll window) ∧
      ((fetched (s.answersAll window)).map Schema.Entity.name).Nodup := by
  constructor
  · intro ops s reached
    have start : (ofCatalog (.ofList records) base true).Stocked fun _ => True :=
      stocked_ofCatalog (fun _ _ => trivial) base true
    have stocked : s.Stocked _ := reached ▸ start.run fun _ _ => trivial
    exact stocked.indexed.isEmpty_iff
  · intro before window s s' fresh still kept reached after
    have fresh : s.Accounted [] := by
      have beside := (beside_ofCatalog (Catalog.keyed_ofList records) base).run before
      rw [reached] at beside
      refine ⟨beside.cached, beside.keyed, ?_⟩
      rcases fresh with rfl | ⟨earlier, rfl⟩
      · rw [← reached]
        exact Cache.accounts_clear (ofCatalog (.ofList records) base true).store _
      · rw [← reached, run_append]
        exact Cache.accounts_clear _ _
    have counted := (fresh.run still kept).accounts
    rw [after, List.nil_append] at counted
    rw [← after, run_lookups, after, counted.size_eq]
    exact ⟨rfl, length_answers _, counted.nodup⟩

def clearedSession : Session :=
  ((ofCatalog (.ofList [contactRecord (some "contacts")]) "org" true).run
    [.entity "contact", .insert (accountRecord 1), .clear]).2

def mixedLookups : List Step :=
  [.typeCode 2, .entity "contact", .entity "lead",
    .convert { entity := some { name := "account" } }, .typeCode 1, .entity "lead"]

/-- Two records are given, two lookups fail, and two are answered by the cache alone. -/
theorem cache_accounting_mixedLookups :
    (clearedSession.run mixedLookups).2.store.size = 2 ∧
      failures (clearedSession.answersAll mixedLookups) = 2 ∧
      (clearedSession.run mixedLookups).2.lookups = clearedSession.lookups + 4 ∧
      clearedSession.store.isEmpty = true := by
  obtain ⟨empty, counts⟩ := cache_accounting [contactRecord (some "contacts")] "org"
  obtain ⟨calls, sum, _⟩ := counts [.entity "contact", .insert (accountRecord 1), .clear]
    mixedLookups clearedSession _ (Or.inr ⟨[.entity "contact", .insert _], rfl⟩)
    (by simp [mixedLookups]) (by simp [mixedLookups]) rfl rfl
  have size : (clearedSession.run mixedLookups).2.store.size = 2 := by decide +kernel
  have failed : failures (clearedSession.answersAll mixedLookups) = 2 := by decide +kernel
  refine ⟨size, failed, ?_, (empty _ _ rfl).mpr rfl⟩
  rw [calls, sum, size, failed]

end Session

end FetchOData
