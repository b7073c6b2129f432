import FetchOData.Query.Codec
import FetchOData.Schema.Codec
import FetchOData.Proofs.Inversion

namespace FetchOData

namespace Json

@[simp] theorem ok_bind (a : α) (next : α → Decoded β) : (Except.ok a >>= next) = next a :=
  rfl

@[simp] theorem pure_eq_ok (a : α) : (pure a : Decoded α) = .ok a :=
  rfl

theorem isSome_get?_iff {fs : List (String × Json)} {key : String} :
    (get? fs key).isSome ↔ key ∈ fs.map Prod.fst := by
  simp [get?, List.lookup_isSome_iff]

theorem field?_of_count_le {fs : List (String × Json)} {key : String}
    (once : (fs.map Prod.fst).count key ≤ 1) : field? fs key = .ok (get? fs key) := by
  rw [field?, if_neg (Nat.not_lt.mpr once)]

/-- The first value has all that the second one has: the same items in a list, and every field of an
object, once, in any order and with any others beside it. -/
inductive Covers : Json → Json → Prop where
  | same (j : Json) : Covers j j
  | arr (items : List.Forall₂ Covers js ks) : Covers (.arr js) (.arr ks)
  | obj (once : ∀ key, (get? ks key).isSome → (js.map Prod.fst).count key = 1)
      (values : ∀ key u v, get? js key = some u → get? ks key = some v → Covers u v) :
      Covers (.obj js) (.obj ks)

def Found (js ks : List (String × Json)) : Prop :=
  ∀ key v, get? ks key = some v → ∃ u, field? js key = .ok (some u) ∧ Covers u v

theorem Covers.of_arr {j : Json} {ks : List Json} (h : Covers j (.arr ks)) :
    ∃ js, j = .arr js ∧ List.Forall₂ Covers js ks := by
  cases h with
  | same => exact ⟨ks, rfl, List.forall₂_same.mpr fun k _ => .same k⟩
  | arr items => exact ⟨_, rfl, items⟩

theorem Covers.of_obj {j : Json} {ks : List (String × Json)} (h : Covers j (.obj ks))
    (distinct : (ks.map Prod.fst).Nodup) : ∃ js, j = .obj js ∧ Found js ks := by
  cases h with
  | same =>
    refine ⟨ks, rfl, ?_⟩
    intro key v hv
    rw [field?_of_count_le (List.nodup_iff_count.mp distinct key), hv]
    exact ⟨v, rfl, .same v⟩
  | @obj _ js once values =>
    refine ⟨js, rfl, ?_⟩
    intro key v hv
    have single := once key (by simp [hv])
    have member : key ∈ js.map Prod.fst := List.count_pos_iff.mp (by omega)
    obtain ⟨u, hu⟩ := Option.isSome_iff_exists.mp (isSome_get?_iff.mpr member)
    rw [field?_of_count_le (Nat.le_of_eq single), hu]
    exact ⟨u, rfl, values key u v hu hv⟩

theorem get?_eq_some_iff_mem {ks : List (String × Json)} (distinct : (ks.map Prod.fst).Nodup)
    (key : String) (v : Json) : get? ks key = some v ↔ (key, v) ∈ ks := by
  induction ks with
  | nil => simp [get?]
  | cons field ks ih =>
    obtain ⟨k, value⟩ := field
    obtain ⟨fresh, rest⟩ := List.nodup_cons.mp distinct
    have here := ih rest
    by_cases h : key = k
    · subst h
      have absent : (key, v) ∉ ks := fun member => fresh (List.mem_map.mpr ⟨_, member, rfl⟩)
      simp [get?, absent, eq_comm]
    · have apart : (key == k) = false := by simpa using h
      simpa [get?, List.lookup_cons, apart, h] using here

/-- The order of the fields does not count. -/
theorem covers_of_perm {js ks : List (String × Json)} (order : js.Perm ks)
    (distinct : (ks.map Prod.fst).Nodup) : Covers (.obj js) (.obj ks) := by
  have same (key : String) (v : Json) : get? js key = some v ↔ get? ks key = some v := by
    have distinct' := (order.map Prod.fst).nodup_iff.mpr distinct
    rw [get?_eq_some_iff_mem distinct', get?_eq_some_iff_mem distinct, order.mem_iff]
  constructor
  · intro key found
    rw [(order.map Prod.fst).count_eq, distinct.count, if_pos (isSome_get?_iff.mp found)]
  · intro key u v hu hv
    have equal : some u = some v := ((same key u).mp hu).symm.trans hv
    cases equal
    exact .same u

theorem Covers.of_null {j : Json} (h : Covers .null j) : j = .null := by
  cases h
  rfl

/-- The model is read from whatever covers what it is written as. -/
def ReadsAt (read : Json → Decoded α) (write : α → Json) (a : α) : Prop :=
  ∀ j, Covers j (write a) → read j = .ok a

def Reads (read : Json → Decoded α) (write : α → Json) : Prop :=
  ∀ a, ReadsAt read write a

/-- Reading again what was read and written changes nothing. -/
theorem Reads.again {read : Json → Decoded α} {write : α → Json} (reads : Reads read write)
    (j : Json) : (read j >>= fun a => read (write a)) = read j := by
  cases read j with
  | error fault => rfl
  | ok a => exact reads a (write a) (.same _)

theorem reads_text {read : Json → Decoded α} {text : α → String}
    (law : ∀ a, read (.str (text a)) = .ok a) : Reads read fun a => .str (text a) := by
  intro a j h
  cases h
  exact law a

theorem reads_string : Reads string .str :=
  reads_text fun _ => rfl

theorem reads_boolean : Reads boolean .bool := by
  intro b j h
  cases h
  rfl

theorem reads_uint32 : Reads uint32 fun n => .int n.toNat := by
  intro n j h
  cases h
  have bounds : 0 ≤ (n.toNat : Int) ∧ (n.toNat : Int) < 4294967296 := by
    have := n.toNat_lt
    omega
  simp [uint32, bounds]

theorem reads_int32 : Reads int32 fun n => .int n.toInt := by
  intro n j h
  cases h
  have bounds : -2147483648 ≤ n.toInt ∧ n.toInt < 2147483648 := by
    have low := n.le_toInt
    have high := n.toInt_lt
    omega
  simp [int32, bounds]

theorem Reads.listOf {read : Json → Decoded α} {write : α → Json} (reads : Reads read write) :
    Reads (listOf read) (ofList write) := by
  intro items j h
  obtain ⟨js, rfl, covered⟩ := h.of_arr
  apply Query.mapM_eq_ok_iff.mpr
  have each := List.forall₂_map_right_iff.mp covered
  exact each.imp fun j a covers => reads a j covers

section Fields

variable {read : Json → Decoded α} {write : α → Json} {js ks : List (String × Json)}

theorem Found.required {a : α} (found : Found js ks) (key : String)
    (reads : ReadsAt read write a) (written : get? ks key = some (write a)) :
    required read js key = .ok a := by
  obtain ⟨u, hu, covers⟩ := found key _ written
  simp [Json.required, hu, reads u covers]

theorem Found.orElse {a : α} (found : Found js ks) (key : String) (default : α)
    (reads : ReadsAt read write a) (written : get? ks key = some (write a)) :
    orElse read default js key = .ok a := by
  obtain ⟨u, hu, covers⟩ := found key _ written
  simp [Json.orElse, hu, reads u covers]

theorem orElse_cons (item : Json → Decoded α) (default : α) (k key : String) (value : Json)
    (fs : List (String × Json)) :
    orElse item default ((k, value) :: fs) key =
      if key = k then if key ∈ fs.map Prod.fst then .error .shape else item value
      else orElse item default fs key := by
  by_cases h : key = k
  · subst h
    have again : 1 < (((key, value) :: fs).map Prod.fst).count key ↔ key ∈ fs.map Prod.fst := by
      rw [List.map_cons, List.count_cons_self, ← List.count_pos_iff]
      omega
    rw [if_pos rfl, orElse, field?]
    by_cases member : key ∈ fs.map Prod.fst
    · rw [if_pos member, if_pos (again.mpr member)]
    · rw [if_neg member, if_neg (mt again.mp member), get?, List.lookup_cons_self]
  · have apart : (key == k) = false := by simpa using h
    rw [if_neg h, orElse, orElse, field?, field?, List.map_cons,
      List.count_cons_of_ne (Ne.symm h), get?, get?, List.lookup_cons, apart]

/-- An absent value is written as null, so nothing else may be. -/
theorem Found.optional (found : Found js ks) (key : String) (o : Option α)
    (reads : Reads read write) (solid : ∀ a, write a ≠ .null)
    (written : get? ks key = some (ofOption write o)) : optional read js key = .ok o := by
  obtain ⟨u, hu, covers⟩ := found key _ written
  cases o with
  | none =>
    have absent : field? js key = .ok (some .null) := by
      cases covers
      exact hu
    simp [Json.optional, absent]
  | some a =>
    have present : u ≠ .null := by
      rintro rfl
      exact solid a covers.of_null
    simp [Json.optional, hu, reads a u covers, Except.map]

end Fields

end Json

namespace Query
open Json

theorem Operator.mem_all (operator : Operator) : operator ∈ Operator.all := by
  cases operator <;> decide

/-- No two operators have the same token, also without the hyphens. -/
theorem Operator.ofToken?_token (operator : Operator) :
    Operator.ofToken? operator.token = some operator := by
  have table : ∀ o ∈ Operator.all, Operator.ofToken? o.token = some o := by decide +kernel
  exact table operator operator.mem_all

theorem Operator.reads : Reads Operator.ofJson fun o => .str o.token := by
  apply reads_text
  intro o
  simp [Operator.ofJson, Json.string, Operator.ofToken?_token]

theorem LinkKind.reads : Reads LinkKind.ofJson fun kind => .str kind.token := by
  apply reads_text
  intro kind
  simp [LinkKind.ofJson, Json.string, LinkKind.ofToken?_token]

theorem Aggregate.reads : Reads Aggregate.ofJson fun a => .str a.token := by
  apply reads_text
  intro a
  simp [Aggregate.ofJson, Json.string, Aggregate.ofToken?_token]

theorem reads_connective : Reads connectiveOfJson fun c => .str c.word := by
  apply reads_text
  intro c
  simp [connectiveOfJson, Json.string, Connective.ofWord?_word]

theorem Column.reads : Reads Column.ofJson Column.toJson := by
  intro c j h
  obtain ⟨fs, rfl, found⟩ := h.of_obj (by simp)
  have name := found.required "name" (reads_string c.name) rfl
  have aliasName := found.optional "alias" c.aliasName reads_string nofun rfl
  have groupBy := found.orElse "groupby" false (reads_boolean c.groupBy) rfl
  have aggregate := found.optional "aggregate" c.aggregate Aggregate.reads nofun rfl
  simp [Column.ofJson, fields, name, aliasName, groupBy, aggregate]

theorem Order.reads : Reads Order.ofJson Order.toJson := by
  intro o j h
  obtain ⟨fs, rfl, found⟩ := h.of_obj (by simp)
  have column := found.required "attribute" (reads_string o.column) rfl
  have descending := found.orElse "descending" false (reads_boolean o.descending) rfl
  have aliasName := found.optional "alias" o.aliasName reads_string nofun rfl
  simp [Order.ofJson, fields, column, descending, aliasName]

theorem Condition.reads : Reads Condition.ofJson Condition.toJson := by
  intro c j h
  obtain ⟨fs, rfl, found⟩ := h.of_obj (by simp)
  have column := found.required "attribute" (reads_string c.column) rfl
  have operator := found.required "operator" (Operator.reads c.operator) rfl
  have value := found.optional "value" c.value reads_string nofun rfl
  have values := found.orElse "values" [] (reads_string.listOf c.values) rfl
  have entityName := found.optional "entityname" c.entityName reads_string nofun rfl
  have valueOf := found.optional "valueof" c.valueOf reads_string nofun rfl
  simp [Condition.ofJson, fields, column, operator, value, values, entityName, valueOf]

/-- The fields of a selection stand among those of the entity or link that it is taken from. -/
theorem Selection.ofFields_of_found {s : Selection} {js ks : List (String × Json)}
    (found : Found js ks) (columns : get? ks "attributes" = some (ofList Column.toJson s.columns))
    (allColumns : get? ks "all-attributes" = some (.bool s.allColumns))
    (orders : get? ks "orders" = some (ofList Order.toJson s.orders)) :
    Selection.ofFields js = .ok s := by
  have columns := found.orElse "attributes" [] (Column.reads.listOf s.columns) columns
  have allColumns := found.orElse "all-attributes" false (reads_boolean s.allColumns) allColumns
  have orders := found.orElse "orders" [] (Order.reads.listOf s.orders) orders
  simp [Selection.ofFields, columns, allColumns, orders]

theorem Join.ofFields_of_found {join : Join} {js ks : List (String × Json)}
    (found : Found js (join.toFields ++ ks)) : Join.ofFields js = .ok join := by
  have entity := found.required "name" (reads_string join.entity) rfl
  have fromColumn := found.required "from" (reads_string join.fromColumn) rfl
  have toColumn := found.required "to" (reads_string join.toColumn) rfl
  have kind := found.orElse "link-type" .inner (LinkKind.reads join.kind) rfl
  have aliasName := found.optional "alias" join.aliasName reads_string nofun rfl
  simp [Join.ofFields, entity, fromColumn, toColumn, kind, aliasName]

theorem Filter.listUnder_eq (key : String) (fs : List (String × Json)) :
    Filter.listUnder key fs = orElse Filter.listOfJson [] fs key := by
  induction fs with
  | nil => rfl
  | cons field fs ih => rw [Filter.listUnder, ih, orElse_cons]

theorem Link.listUnder_eq (key : String) (fs : List (String × Json)) :
    Link.listUnder key fs = orElse Link.listOfJson [] fs key := by
  induction fs with
  | nil => rfl
  | cons field fs ih => rw [Link.listUnder, ih, orElse_cons]

mutual
theorem Filter.readsAt (f : Filter) : ReadsAt Filter.ofJson Filter.toJson f := by
  match f with
  | ⟨connective, conditions, filters, links⟩ =>
    intro j h
    rw [Filter.toJson] at h
    obtain ⟨fs, rfl, found⟩ := h.of_obj (by simp)
    have type := found.orElse "type" .and (reads_connective connective) rfl
    have own := found.orElse "conditions" [] (Condition.reads.listOf conditions) rfl
    have nested := found.orElse "filters" [] (Filter.readsAll filters) rfl
    have related := found.orElse "links" [] (Link.readsAll links) rfl
    simp [Filter.ofJson, Filter.listUnder_eq, Link.listUnder_eq, type, own, nested, related]
theorem Link.readsAt (l : Link) : ReadsAt Link.ofJson Link.toJson l := by
  match l with
  | ⟨join, selection, filters, links⟩ =>
    intro j h
    rw [Link.toJson] at h
    obtain ⟨fs, rfl, found⟩ := h.of_obj (by simp [Join.toFields, Selection.toFields])
    have joined : Join.ofFields fs = .ok join := Join.ofFields_of_found found
    have selected : Selection.ofFields fs = .ok selection :=
      Selection.ofFields_of_found found rfl rfl rfl
    have nested := found.orElse "filters" [] (Filter.readsAll filters) rfl
    have related := found.orElse "links" [] (Link.readsAll links) rfl
    simp [Link.ofJson, Filter.listUnder_eq, Link.listUnder_eq, joined, selected, nested, related]
theorem Filter.readsAll (fs : List Filter) :
    ReadsAt Filter.listOfJson (fun fs => .arr (Filter.toItems fs)) fs := by
  intro j h
  obtain ⟨js, rfl, covered⟩ := h.of_arr
  rw [Filter.listOfJson]
  match fs with
  | [] =>
    cases covered
    rfl
  | f :: fs =>
    rw [Filter.toItems] at covered
    cases covered with
    | cons first rest =>
      have head := Filter.readsAt f _ first
      have tail := Filter.readsAll fs _ (.arr rest)
      rw [Filter.listOfJson] at tail
      simp [Filter.ofItems, head, tail]
theorem Link.readsAll (ls : List Link) :
    ReadsAt Link.listOfJson (fun ls => .arr (Link.toItems ls)) ls := by
  intro j h
  obtain ⟨js, rfl, covered⟩ := h.of_arr
  rw [Link.listOfJson]
  match ls with
  | [] =>
    cases covered
    rfl
  | l :: ls =>
    rw [Link.toItems] at covered
    cases covered with
    | cons first rest =>
      have head := Link.readsAt l _ first
      have tail := Link.readsAll ls _ (.arr rest)
      rw [Link.listOfJson] at tail
      simp [Link.ofItems, head, tail]
end

theorem Entity.reads : Reads Entity.ofJson Entity.toJson := by
  intro e j h
  obtain ⟨fs, rfl, found⟩ := h.of_obj (by simp [Selection.toFields])
  have name := found.required "name" (reads_string e.name) rfl
  have selected : Selection.ofFields fs = .ok e.selection :=
    Selection.ofFields_of_found found rfl rfl rfl
  have nested := found.orElse "filters" [] (Filter.readsAll e.filters) rfl
  have joined := found.orElse "links" [] (Link.readsAll e.links) rfl
  simp [Entity.ofJson, fields, Filter.listUnder_eq, Link.listUnder_eq, name, selected, nested,
    joined]

theorem Fetch.reads : Reads Fetch.ofJson Fetch.toJson := by
  intro f j h
  obtain ⟨fs, rfl, found⟩ := h.of_obj (by simp)
  have top := found.optional "top" f.top reads_uint32 nofun rfl
  have count := found.optional "count" f.count reads_uint32 nofun rfl
  have page := found.optional "page" f.page reads_uint32 nofun rfl
  have aggregate := found.orElse "aggregate" false (reads_boolean f.aggregate) rfl
  have datasource := found.optional "datasource" f.datasource reads_string nofun rfl
  have entity := found.optional "entity" f.entity Entity.reads nofun rfl
  simp [Fetch.ofJson, fields, top, count, page, aggregate, datasource, entity]

end Query

namespace Schema
open Json

theorem AttributeKind.reads : Reads AttributeKind.ofJson fun kind => .str kind.name := by
  apply reads_text
  intro kind
  simp [AttributeKind.ofJson, Json.string, AttributeKind.ofName_name]

theorem Attribute.reads : Reads Attribute.ofJson Attribute.toJson := by
  intro a j h
  obtain ⟨fs, rfl, found⟩ := h.of_obj (by simp)
  have name := found.required "LogicalName" (reads_string a.name) rfl
  have kind := found.required "AttributeType" (AttributeKind.reads a.kind) rfl
  have targets := found.orElse "Targets" [] (reads_string.listOf a.targets) rfl
  have innerKind :=
    found.optional "ValueAttributeTypeCode" a.innerKind AttributeKind.reads nofun rfl
  simp [Attribute.ofJson, fields, name, kind, targets, innerKind]

theorem Reference.reads : Reads Reference.ofJson Reference.toJson := by
  intro r j h
  obtain ⟨fs, rfl, found⟩ := h.of_obj (by simp)
  have schemaName := found.required "SchemaName" (reads_string r.schemaName) rfl
  have referenced := found.required "ReferencedEntity" (reads_string r.referencedEntity) rfl
  have key := found.optional "ReferencedAttribute" r.referencedAttribute reads_string nofun rfl
  have referencing := found.required "ReferencingEntity" (reads_string r.referencingEntity) rfl
  have column := found.required "ReferencingAttribute" (reads_string r.referencingAttribute) rfl
  have children := found.optional "ReferencedEntityNavigationPropertyName" r.referencedNavigation
    reads_string nofun rfl
  have parent := found.optional "ReferencingEntityNavigationPropertyName" r.referencingNavigation
    reads_string nofun rfl
  simp [Reference.ofJson, fields, schemaName, referenced, key, referencing, column, children,
    parent]

theorem Association.reads : Reads Association.ofJson Association.toJson := by
  intro a j h
  obtain ⟨fs, rfl, found⟩ := h.of_obj (by simp)
  have schemaName := found.required "SchemaName" (reads_string a.schemaName) rfl
  have intersect := found.required "IntersectEntityName" (reads_string a.intersectEntity) rfl
  have first := found.required "Entity1LogicalName" (reads_string a.first.entity) rfl
  have firstColumn := found.optional "Entity1IntersectAttribute" a.first.intersectAttribute
    reads_string nofun rfl
  have firstNavigation := found.optional "Entity1NavigationPropertyName" a.first.navigation
    reads_string nofun rfl
  have second := found.required "Entity2LogicalName" (reads_string a.second.entity) rfl
  have secondColumn := found.optional "Entity2IntersectAttribute" a.second.intersectAttribute
    reads_string nofun rfl
  have secondNavigation := found.optional "Entity2NavigationPropertyName" a.second.navigation
    reads_string nofun rfl
  simp [Association.ofJson, fields, schemaName, intersect, first, firstColumn, firstNavigation,
    second, secondColumn, secondNavigation]

theorem Entity.reads : Reads Entity.ofJson Entity.toJson := by
  intro e j h
  obtain ⟨fs, rfl, found⟩ := h.of_obj (by simp)
  have name := found.required "LogicalName" (reads_string e.name) rfl
  have setName := found.optional "EntitySetName" e.setName reads_string nofun rfl
  have collectionName :=
    found.optional "LogicalCollectionName" e.collectionName reads_string nofun rfl
  have primaryKey := found.required "PrimaryIdAttribute" (reads_string e.primaryKey) rfl
  have typeCode := found.optional "ObjectTypeCode" e.typeCode reads_int32 nofun rfl
  have attributes := found.orElse "Attributes" [] (Attribute.reads.listOf e.attributes) rfl
  have oneToMany :=
    found.orElse "OneToManyRelationships" [] (Reference.reads.listOf e.oneToMany) rfl
  have manyToOne :=
    found.orElse "ManyToOneRelationships" [] (Reference.reads.listOf e.manyToOne) rfl
  have manyToMany :=
    found.orElse "ManyToManyRelationships" [] (Association.reads.listOf e.manyToMany) rfl
  simp [Entity.ofJson, fields, name, setName, collectionName, primaryKey, typeCode, attributes,
    oneToMany, manyToOne, manyToMany]

end Schema

/-- Queries and schema records read back as they were written, so that a value which was read can be
written and read again without a change. It does not matter in which order the fields of the written
objects come, nor what other fields there are. -/
theorem models_read_back :
    (∀ f : Query.Fetch, Query.Fetch.ofJson f.toJson = .ok f) ∧
      (∀ e : Schema.Entity, Schema.Entity.ofJson e.toJson = .ok e) ∧
      (∀ j, (Query.Fetch.ofJson j >>= fun f => Query.Fetch.ofJson f.toJson) =
        Query.Fetch.ofJson j) ∧
      (∀ j, (Schema.Entity.ofJson j >>= fun e => Schema.Entity.ofJson e.toJson) =
        Schema.Entity.ofJson j) ∧
      (∀ (f : Query.Fetch) (j : Json), j.Covers f.toJson → Query.Fetch.ofJson j = .ok f) ∧
      ∀ (e : Schema.Entity) (j : Json), j.Covers e.toJson → Schema.Entity.ofJson j = .ok e :=
  ⟨fun f => Query.Fetch.reads f _ (.same _), fun e => Schema.Entity.reads e _ (.same _),
    Query.Fetch.reads.again, Schema.Entity.reads.again, Query.Fetch.reads, Schema.Entity.reads⟩

def Query.Fetch.fiveContacts : Query.Fetch :=
  { top := some 5
    entity := some {
      name := "contact"
      selection := { columns := [{ name := "fullname" }], orders := [{ column := "fullname" }] }
      filters := [{ conditions := [{ column := "parentcustomerid", operator := .isNotNull }] }] } }

def Schema.Entity.contacts : Schema.Entity :=
  { name := "contact", setName := some "contacts", primaryKey := "contactid", typeCode := some 2
    attributes := [⟨"parentcustomerid", .customer, ["account", "contact"], none⟩] }

/-- Both are read from fields that stand the other way round. -/
theorem models_read_back_reversed :
    (∃ fs, Query.Fetch.fiveContacts.toJson = .obj fs ∧
        Query.Fetch.ofJson (.obj fs.reverse) = .ok Query.Fetch.fiveContacts) ∧
      ∃ fs, Schema.Entity.contacts.toJson = .obj fs ∧
        Schema.Entity.ofJson (.obj fs.reverse) = .ok Schema.Entity.contacts := by
  obtain ⟨_, _, _, _, query, schema⟩ := models_read_back
  constructor
  · refine ⟨_, rfl, query _ _ ?_⟩
    exact Json.covers_of_perm (List.reverse_perm _) (by decide)
  · refine ⟨_, rfl, schema _ _ ?_⟩
    exact Json.covers_of_perm (List.reverse_perm _) (by decide)

end FetchOData
