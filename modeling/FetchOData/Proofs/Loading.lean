import Mathlib.Data.List.Dedup
import Mathlib.Data.List.Induction
import FetchOData.Proofs.ReadBack
import FetchOData.Proofs.Transparency

namespace FetchOData

namespace Schema.Entity
open Json

/-- A value that lists these records: it is a list of them, or an object that has such a list under
`value` and may have any other fields. -/
inductive Definitions : Json → List Entity → Prop where
  | list (items : List.Forall₂ (fun j e => ofJson j = .ok e) js es) : Definitions (.arr js) es
  | collection {before after : List (String × Json)}
      (items : List.Forall₂ (fun j e => ofJson j = .ok e) js es)
      (first : "value" ∉ before.map Prod.fst) (only : "value" ∉ after.map Prod.fst) :
      Definitions (.obj (before ++ ("value", .arr js) :: after)) es

theorem field?_append_cons {before after : List (String × Json)} {key : String} {value : Json}
    (first : key ∉ before.map Prod.fst) (only : key ∉ after.map Prod.fst) :
    field? (before ++ (key, value) :: after) key = .ok (some value) := by
  have once : ((before ++ (key, value) :: after).map Prod.fst).count key ≤ 1 := by
    have earlier := List.count_eq_zero.mpr first
    have later := List.count_eq_zero.mpr only
    rw [List.map_append, List.map_cons, List.count_append, List.count_cons_self]
    omega
  have absent : before.lookup key = none := by
    rw [← Option.not_isSome_iff_eq_none]
    exact mt isSome_get?_iff.mp first
  rw [field?_of_count_le once, get?, List.lookup_append, absent, List.lookup_cons_self]
  rfl

theorem Definitions.read {j : Json} {es : List Entity} (h : Definitions j es) :
    listOfDefinitions j = .ok es := by
  cases h with
  | list items => exact Query.mapM_eq_ok_iff.mpr items
  | collection items first only =>
    simp only [listOfDefinitions, required, field?_append_cons first only]
    exact Query.mapM_eq_ok_iff.mpr items

def Survives (es : List Entity) (e : Entity) : Prop :=
  ∃ before after, es = before ++ e :: after ∧ ∀ later ∈ after, later.name ≠ e.name

theorem not_survives_nil (e : Entity) : ¬Survives [] e := by
  rintro ⟨before, after, split, _⟩
  simp at split

theorem survives_concat {es : List Entity} {last e : Entity} :
    Survives (es ++ [last]) e ↔ e = last ∨ last.name ≠ e.name ∧ Survives es e := by
  constructor
  · rintro ⟨before, after, split, fresh⟩
    rcases List.eq_nil_or_concat after with rfl | ⟨rest, latest, rfl⟩
    · have ends := List.append_inj_right' split rfl
      simp only [List.cons.injEq, and_true] at ends
      exact Or.inl ends.symm
    · rw [List.concat_eq_append, ← List.cons_append, ← List.append_assoc] at split
      have ends := List.append_inj' split rfl
      simp only [List.cons.injEq, and_true] at ends
      obtain ⟨kept, rfl⟩ := ends
      exact Or.inr ⟨fresh last (by simp), before, rest, kept, fun later member =>
        fresh later (by simp [member])⟩
  · rintro (rfl | ⟨other, before, after, rfl, fresh⟩)
    · exact ⟨es, [], rfl, nofun⟩
    · refine ⟨before, after ++ [last], by simp, ?_⟩
      intro later member
      rcases List.mem_append.mp member with earlier | latest
      · exact fresh later earlier
      · rw [List.mem_singleton.mp latest]
        exact other

theorem Survives.mem {es : List Entity} {e : Entity} (h : Survives es e) : e ∈ es := by
  obtain ⟨before, after, rfl, _⟩ := h
  simp

theorem exists_survives {es : List Entity} {e : Entity} (h : e ∈ es) :
    ∃ kept, Survives es kept ∧ kept.name = e.name := by
  induction es using List.reverseRecOn with
  | nil => cases h
  | append_singleton es last ih =>
    by_cases same : last.name = e.name
    · exact ⟨last, survives_concat.mpr (Or.inl rfl), same⟩
    · rcases List.mem_append.mp h with earlier | latest
      · obtain ⟨kept, survives, name⟩ := ih earlier
        exact ⟨kept, survives_concat.mpr (Or.inr ⟨name ▸ same, survives⟩), name⟩
      · exact absurd (congrArg Entity.name (List.mem_singleton.mp latest)).symm same

def DistinctCodes (es : List Entity) : Prop :=
  ∀ e e' code, Survives es e → Survives es e' → e.typeCode = some code →
    e'.typeCode = some code → e = e'

end Schema.Entity

namespace Catalog
open Schema.Entity (Definitions Survives DistinctCodes survives_concat not_survives_nil
  exists_survives)

variable {es : List Schema.Entity} {e : Schema.Entity} {name : String} {code : Int32}

theorem ofList_concat (es : List Schema.Entity) (last : Schema.Entity) :
    ofList (es ++ [last]) = (ofList es).insert last := by
  simp [ofList]

/-- What is held under a name is what survives of it. Each record that comes in takes the place of
the one that survived so far. -/
theorem getElem?_ofList_eq_some_iff :
    (ofList es).entities[name]? = some e ↔ Survives es e ∧ e.name = name := by
  induction es using List.reverseRecOn with
  | nil => simp [ofList, not_survives_nil]
  | append_singleton es last ih =>
    rw [ofList_concat, getElem?_insert, survives_concat]
    by_cases same : last.name = name
    · rw [if_pos same, Option.some.injEq]
      constructor
      · rintro rfl
        exact ⟨Or.inl rfl, same⟩
      · rintro ⟨rfl | ⟨other, _⟩, named⟩
        · rfl
        · exact absurd (same.trans named.symm) other
    · rw [if_neg same, ih]
      constructor
      · rintro ⟨survives, named⟩
        exact ⟨Or.inr ⟨named ▸ same, survives⟩, named⟩
      · rintro ⟨rfl | ⟨_, survives⟩, named⟩
        · exact absurd named same
        · exact ⟨survives, named⟩

theorem mem_records_ofList_iff : e ∈ (ofList es).records ↔ Survives es e := by
  rw [mem_records]
  simp [getElem?_ofList_eq_some_iff]

theorem entity_ofList_of_absent (absent : ∀ e ∈ es, e.name ≠ name) :
    (ofList es).entity name = .error (.entityNotFound name) := by
  have unheld : (ofList es).entities[name]? = none := by
    rw [Option.eq_none_iff_forall_ne_some]
    intro e held
    obtain ⟨survives, named⟩ := getElem?_ofList_eq_some_iff.mp held
    exact absent e survives.mem named
  simp only [entity, unheld]

theorem mem_keys_ofList_iff : name ∈ (ofList es).entities.keys ↔ name ∈ es.map (·.name) := by
  rw [Std.TreeMap.mem_keys, Std.TreeMap.mem_iff_isSome_getElem?, Option.isSome_iff_exists,
    List.mem_map]
  constructor
  · rintro ⟨e, held⟩
    obtain ⟨survives, named⟩ := getElem?_ofList_eq_some_iff.mp held
    exact ⟨e, survives.mem, named⟩
  · rintro ⟨e, member, rfl⟩
    obtain ⟨kept, survives, named⟩ := exists_survives member
    exact ⟨kept, getElem?_ofList_eq_some_iff.mpr ⟨survives, named⟩⟩

theorem size_ofList (es : List Schema.Entity) :
    (ofList es).size = (es.map (·.name)).dedup.length := by
  have same : (ofList es).entities.keys.Perm (es.map (·.name)).dedup := by
    rw [List.perm_ext_iff_of_nodup Std.TreeMap.nodup_keys (List.nodup_dedup _)]
    intro name
    rw [mem_keys_ofList_iff, List.mem_dedup]
  rw [size, ← Std.TreeMap.length_keys, same.length_eq]

theorem typeCode_of_absent {c : Catalog} (absent : ∀ e ∈ c.records, e.typeCode ≠ some code) :
    c.typeCode code = .error (.typeCodeNotFound code) := by
  have unfound : c.records.find? (fun e => e.typeCode == some code) = none := by
    rw [List.find?_eq_none]
    intro e member
    simpa using absent e member
  simp only [typeCode, unfound]

theorem typeCode_ofList_of_survives (distinct : DistinctCodes es) (survives : Survives es e)
    (coded : e.typeCode = some code) : (ofList es).typeCode code = .ok e := by
  obtain ⟨found, answer⟩ := exists_typeCode (mem_records_ofList_iff.mpr survives) coded
  obtain ⟨member, same⟩ := mem_of_typeCode answer
  rw [answer, distinct found e code (mem_records_ofList_iff.mp member) survives same coded]

theorem load_of_definitions {text : String} {j : Json} (parsed : Json.parse? text = some j)
    (defined : Definitions j es) : load text = .ok (ofList es) := by
  unfold Json.parse? at parsed
  unfold load
  split at parsed
  · rename_i value rest found
    split at parsed
    · rename_i blank
      cases parsed
      simp only [found, ofJson, defined.read, blank]
      rfl
    · cases parsed
  · cases parsed

/-- A text that lists records in either shape loads, and the catalog is the same for every such
text. By its name an entity is found as the last record of the list that has this name. There are as
many entities as different names. A lookup by type code gives only records that survive, and if
those have different type codes, it gives each of them. -/
theorem load_keeps_last {text : String} {j : Json} (parsed : Json.parse? text = some j)
    (defined : Definitions j es) :
    ∃ c, load text = .ok c ∧
      (∀ text' j', Json.parse? text' = some j' → Definitions j' es → load text' = .ok c) ∧
      (∀ name e, c.entity name = .ok e ↔ Survives es e ∧ e.name = name) ∧
      (∀ name, (∀ e ∈ es, e.name ≠ name) → c.entity name = .error (.entityNotFound name)) ∧
      c.size = (es.map (·.name)).dedup.length ∧
      (∀ code e, c.typeCode code = .ok e → Survives es e ∧ e.typeCode = some code) ∧
      (∀ code, (∀ e, Survives es e → e.typeCode ≠ some code) →
        c.typeCode code = .error (.typeCodeNotFound code)) ∧
      (DistinctCodes es → ∀ code e, Survives es e → e.typeCode = some code →
        c.typeCode code = .ok e) := by
  refine ⟨ofList es, load_of_definitions parsed defined, ?_, ?_, ?_, size_ofList es, ?_, ?_, ?_⟩
  · intro text' j' parsed' defined'
    exact load_of_definitions parsed' defined'
  · intro name e
    rw [entity_eq_ok_iff, getElem?_ofList_eq_some_iff]
  · intro name absent
    exact entity_ofList_of_absent absent
  · intro code e found
    obtain ⟨member, coded⟩ := mem_of_typeCode found
    exact ⟨mem_records_ofList_iff.mp member, coded⟩
  · intro code absent
    exact typeCode_of_absent fun e member => absent e (mem_records_ofList_iff.mp member)
  · intro distinct code e survives coded
    exact typeCode_ofList_of_survives distinct survives coded

def accountOf (code : Int32) : Schema.Entity :=
  { name := "a", primaryKey := "id", typeCode := some code }

def accountJson (code : Int) : Json :=
  .obj [("LogicalName", .str "a"), ("PrimaryIdAttribute", .str "id"), ("ObjectTypeCode", .int code)]

def accountTwice : String :=
  "[\x7b\"LogicalName\":\"a\",\"PrimaryIdAttribute\":\"id\",\"ObjectTypeCode\":1\x7d," ++
    "\x7b\"LogicalName\":\"a\",\"PrimaryIdAttribute\":\"id\",\"ObjectTypeCode\":2\x7d]"

theorem survives_accountTwice_iff : Survives [accountOf 1, accountOf 2] e ↔ e = accountOf 2 := by
  have split : Survives ([accountOf 1] ++ [accountOf 2]) e ↔ _ := survives_concat
  refine split.trans ⟨?_, Or.inl⟩
  rintro (latest | ⟨other, earlier⟩)
  · exact latest
  · rw [List.mem_singleton.mp earlier.mem] at other
    exact absurd rfl other

/-- In both shapes the first definition is gone, also from under its type code. -/
theorem load_keeps_last_accountTwice :
    ∃ c, load accountTwice = .ok c ∧
      load ("\x7b\"count\":2,\"value\":" ++ accountTwice ++ "\x7d") = .ok c ∧ c.size = 1 ∧
      c.entity "a" = .ok (accountOf 2) ∧ c.typeCode 2 = .ok (accountOf 2) ∧
      c.typeCode 1 = .error (.typeCodeNotFound 1) := by
  have parsed : Json.parse? accountTwice = some (.arr [accountJson 1, accountJson 2]) := by
    set_option maxRecDepth 4000 in with_unfolding_all rfl
  have parsed' : Json.parse? ("\x7b\"count\":2,\"value\":" ++ accountTwice ++ "\x7d") =
      some (.obj ([("count", .int 2)] ++ [("value", .arr [accountJson 1, accountJson 2])])) := by
    set_option maxRecDepth 4000 in with_unfolding_all rfl
  have items : List.Forall₂ (fun j e => Schema.Entity.ofJson j = .ok e)
      [accountJson 1, accountJson 2] [accountOf 1, accountOf 2] :=
    .cons rfl (.cons rfl .nil)
  obtain ⟨c, loaded, again, named, _, size, _, uncoded, coded⟩ :=
    load_keeps_last parsed (.list items)
  have kept := survives_accountTwice_iff.mpr rfl
  refine ⟨c, loaded, again _ _ parsed' (.collection items (by decide) (by decide)), size,
    (named "a" _).mpr ⟨kept, rfl⟩, ?_, ?_⟩
  · refine coded ?_ 2 _ kept rfl
    intro e e' code he he' _ _
    rw [survives_accountTwice_iff.mp he, survives_accountTwice_iff.mp he']
  · apply uncoded
    intro e he
    rw [survives_accountTwice_iff.mp he]
    decide

end Catalog

end FetchOData
