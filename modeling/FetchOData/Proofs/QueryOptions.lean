import FetchOData.Proofs.Delimiters

namespace FetchOData
open Text

namespace OData

def optionMarks : List Char :=
  ['?', '&']

theorem avoids_marks {s : String} (h : Avoids delimiters s) : Avoids optionMarks s :=
  h.mono (by decide)

variable {L : Lexicon}

theorem avoids_option (name : String) (hn : ∀ c ∈ name.toList, isNameChar c = true)
    {value : String} (h : Avoids optionMarks value) :
    Avoids optionMarks ("$" ++ name ++ "=" ++ value) := by
  rw [avoids_append, avoids_append, avoids_append]
  exact ⟨⟨⟨by decide, avoids_marks (avoids_of_name hn)⟩, by decide⟩, h⟩

theorem avoids_listOption (name : String) (hn : ∀ c ∈ name.toList, isNameChar c = true)
    {items : List String} (h : ∀ item ∈ items, Avoids optionMarks item) :
    ∀ option ∈ (option? name items).toList, Avoids optionMarks option := by
  unfold option?
  split
  · exact List.forall_mem_nil _
  · exact List.forall_mem_singleton.mpr
      (avoids_option name hn (avoids_intercalate (by decide) h))

theorem Group.avoids_conjunction (columns : ∀ n, L.column n → Avoids optionMarks n)
    {gs : List Group} (h : ∀ g ∈ gs, g.Spelled L []) {text : String}
    (ht : Group.conjunction? gs = some text) : Avoids optionMarks text := by
  have bare : ∀ n ∈ ([] : List String), IsVariable n.toList :=
    List.forall_mem_nil _
  exact OData.avoids_conjunction ht (by decide) (Group.avoids_texts (by decide) columns bare h)

theorem avoids_rowOptions (columns : ∀ n, L.column n → Avoids optionMarks n)
    {select expand : List String} {filter : List Group} (hs : ∀ n ∈ select, L.name n)
    (he : ∀ item ∈ expand, Avoids optionMarks item) (hf : ∀ g ∈ filter, g.Spelled L []) :
    ∀ option ∈ rowOptions select expand filter, Avoids optionMarks option := by
  have selected := avoids_listOption "select" (by decide) fun n hn =>
    avoids_marks (avoids_of_name (L.identifier n (hs n hn)).2)
  have filtered : ∀ option ∈ (filterOption? filter).toList, Avoids optionMarks option := by
    unfold filterOption?
    cases ht : Group.conjunction? filter with
    | none => exact List.forall_mem_nil _
    | some text =>
      exact List.forall_mem_singleton.mpr
        (avoids_option "filter" (by decide) (Group.avoids_conjunction columns hf ht))
  exact List.forall_mem_append.mpr ⟨List.forall_mem_append.mpr
    ⟨selected, avoids_listOption "expand" (by decide) he⟩, filtered⟩

theorem avoids_withOptions {property : String} (hp : ∀ c ∈ property.toList, isNameChar c = true)
    {options : List String} (h : ∀ option ∈ options, Avoids optionMarks option) :
    Avoids optionMarks (withOptions property options) := by
  have name := avoids_marks (avoids_of_name hp)
  unfold withOptions
  split
  · exact name
  · simp only [avoids_append]
    exact ⟨⟨⟨name, by decide⟩, avoids_intercalate (by decide) h⟩, by decide⟩

mutual
theorem Expand.avoids (columns : ∀ n, L.column n → Avoids optionMarks n) {e : Expand}
    (h : e.Spelled L) : Avoids optionMarks e.text := by
  match e with
  | ⟨property, select, expand, filter⟩ =>
    cases h with
    | mk name selected expanded filtered =>
      rw [Expand.text]
      exact avoids_withOptions (L.identifier _ name).2
        (avoids_rowOptions columns selected (Expand.avoids_texts columns expanded) filtered)
theorem Expand.avoids_texts (columns : ∀ n, L.column n → Avoids optionMarks n) {es : List Expand}
    (h : ∀ e ∈ es, e.Spelled L) : ∀ text ∈ Expand.texts es, Avoids optionMarks text := by
  match es with
  | [] => exact List.forall_mem_nil _
  | e :: es =>
    obtain ⟨he, hrest⟩ := List.forall_mem_cons.mp h
    rw [Expand.texts]
    exact List.forall_mem_cons.mpr
      ⟨Expand.avoids columns he, Expand.avoids_texts columns hrest⟩
end

theorem avoids_aggregates (titles : ∀ n, L.title n → Avoids optionMarks n) {text : String}
    (h : Aggregates L text) : Avoids optionMarks text := by
  obtain ⟨aggregate, property, title, rfl, hp, ht⟩ := h
  have name : Avoids optionMarks property := (L.identifier _ hp).avoids (by decide)
  have called := titles _ ht
  have reduced (method : String) (hm : Avoids optionMarks method) :
      Avoids optionMarks (property ++ " with " ++ method ++ " as " ++ title) := by
    simp only [avoids_append]
    exact ⟨⟨⟨⟨name, by decide⟩, hm⟩, by decide⟩, called⟩
  cases aggregate with
  | count => exact avoids_append.mpr ⟨by decide, called⟩
  | countColumn => exact reduced "countdistinct" (by decide)
  | sum => exact reduced "sum" (by decide)
  | avg => exact reduced "average" (by decide)
  | min => exact reduced "min" (by decide)
  | max => exact reduced "max" (by decide)

namespace Request

theorem avoids_summary (titles : ∀ n, L.title n → Avoids optionMarks n) {r : Request}
    (h : r.Spelled L) : Avoids optionMarks r.summary := by
  have groups : Avoids optionMarks (",".intercalate r.groups) :=
    avoids_intercalate (by decide) fun g hg =>
      avoids_marks (avoids_of_name (L.identifier _ (h.groups g hg)).2)
  have aggregates : Avoids optionMarks (",".intercalate r.aggregates) :=
    avoids_intercalate (by decide) fun a ha => avoids_aggregates titles (h.aggregates a ha)
  unfold summary
  dsimp only
  split
  · simp only [avoids_append]
    exact ⟨⟨by decide, aggregates⟩, by decide⟩
  · split
    · simp only [avoids_append]
      exact ⟨⟨by decide, groups⟩, by decide⟩
    · simp only [avoids_append]
      exact ⟨⟨⟨⟨by decide, groups⟩, by decide⟩, aggregates⟩, by decide⟩

theorem avoids_apply (columns : ∀ n, L.column n → Avoids optionMarks n)
    (titles : ∀ n, L.title n → Avoids optionMarks n) {r : Request} (h : r.Spelled L) :
    Avoids optionMarks r.apply := by
  have summary := avoids_summary titles h
  unfold apply
  split
  · rename_i filter hf
    cases h.target with
    | mk _ _ _ filtered =>
      simp only [avoids_append]
      exact ⟨⟨⟨by decide, Group.avoids_conjunction columns filtered hf⟩, by decide⟩, summary⟩
  · exact summary

/-- No option has a mark in it that stands between options. -/
theorem avoids_options (columns : ∀ n, L.column n → Avoids optionMarks n)
    (titles : ∀ n, L.title n → Avoids optionMarks n) {r : Request} (h : r.Spelled L) :
    ∀ option ∈ r.options, Avoids optionMarks option := by
  unfold options
  split
  · exact List.forall_mem_singleton.mpr
      (avoids_option "apply" (by decide) (avoids_apply columns titles h))
  · have rows : ∀ option ∈ r.target.options, Avoids optionMarks option := by
      cases h.target with
      | mk _ selected expanded filtered =>
        exact avoids_rowOptions columns selected (Expand.avoids_texts columns expanded) filtered
    have ordered : ∀ text ∈ r.orderBy.map Ordering.text, Avoids optionMarks text := by
      intro text ht
      obtain ⟨o, ho, rfl⟩ := List.mem_map.mp ht
      rw [Ordering.text, avoids_append]
      refine ⟨(L.identifier _ (h.orderBy o ho)).avoids (by decide), ?_⟩
      split <;> decide
    have limited : ∀ option ∈ r.topOption?.toList, Avoids optionMarks option := by
      unfold topOption?
      cases r.top with
      | none => exact List.forall_mem_nil _
      | some n =>
        refine List.forall_mem_singleton.mpr (avoids_option "top" (by decide) ?_)
        exact avoids_marks (avoids_literal (Or.inr fun c hc =>
          Literal.mem_bareChars_of_numeral (Literal.mem_integerText hc)))
    exact List.forall_mem_append.mpr ⟨List.forall_mem_append.mpr
      ⟨rows, avoids_listOption "orderby" (by decide) ordered⟩, limited⟩

def IsOption (name option : String) : Prop :=
  ∃ value, option = "$" ++ name ++ "=" ++ value

/-- The texts are options with some of the names, in the order of the names. -/
def Listed (names options : List String) : Prop :=
  ∃ given, given.Sublist names ∧ List.Forall₂ IsOption given options

def Named (name : String) (o : Option String) : Prop :=
  ∀ option, o = some option → IsOption name option

theorem named_option (name : String) (items : List String) : Named name (option? name items) := by
  intro option h
  unfold option? at h
  split at h
  · cases h
  · exact ⟨_, (Option.some.inj h).symm⟩

theorem named_filterOption (filter : List Group) : Named "filter" (filterOption? filter) := by
  intro option h
  obtain ⟨text, _, rfl⟩ := Option.map_eq_some_iff.mp h
  exact ⟨text, rfl⟩

theorem named_topOption (r : Request) : Named "top" r.topOption? := by
  intro option h
  obtain ⟨n, _, rfl⟩ := Option.map_eq_some_iff.mp h
  exact ⟨_, rfl⟩

def rowParts (r : Request) : List (Option String) :=
  [option? "select" r.target.select, option? "expand" (Expand.texts r.target.expand),
    filterOption? r.target.filter, option? "orderby" (r.orderBy.map Ordering.text), r.topOption?]

theorem options_eq_rowParts {r : Request} (rows : r.isAggregate = false) :
    r.options = r.rowParts.flatMap Option.toList := by
  simp [options, rows, rowParts, Expand.options, rowOptions]

theorem named_rowParts (r : Request) :
    List.Forall₂ Named ["select", "expand", "filter", "orderby", "top"] r.rowParts :=
  .cons (named_option _ _) (.cons (named_option _ _) (.cons (named_filterOption _)
    (.cons (named_option _ _) (.cons (named_topOption r) .nil))))

theorem listed_of_named {names : List String} {parts : List (Option String)}
    (h : List.Forall₂ Named names parts) : Listed names (parts.flatMap Option.toList) := by
  induction h with
  | nil => exact ⟨[], List.Sublist.refl _, .nil⟩
  | @cons name o names parts hn _ ih =>
    obtain ⟨given, hs, hf⟩ := ih
    cases o with
    | none => exact ⟨given, hs.cons name, hf⟩
    | some option => exact ⟨name :: given, hs.cons_cons name, .cons (hn option rfl) hf⟩

/-- A request for rows has each option once at most, in a fixed order. -/
theorem listed_options {r : Request} (rows : r.isAggregate = false) :
    Listed ["select", "expand", "filter", "orderby", "top"] r.options := by
  rw [options_eq_rowParts rows]
  exact listed_of_named r.named_rowParts

/-- What is left of a URL without marks in its base are the options. -/
theorem split_url {r : Request} {base : String} (hb : '?' ∉ base.toList)
    (hp : IsIdentifier r.target.property)
    (ho : ∀ option ∈ r.options, Avoids optionMarks option) :
    (r.options = [] → '?' ∉ (r.url base).toList) ∧
      (r.options ≠ [] → ∃ before after, (r.url base).toList = before ++ '?' :: after ∧
        '?' ∉ before ∧ '?' ∉ after ∧ after.splitOn '&' = r.options.map String.toList) := by
  have resource : '?' ∉ (trimBase base ++ "/" ++ r.target.property).toList := by
    have name : Avoids ['?'] r.target.property := hp.avoids (by decide)
    simp only [String.toList_append, List.mem_append, not_or]
    exact ⟨⟨fun hm => hb (mem_trimBase hm), by decide⟩, fun hm => name '?' hm (by decide)⟩
  constructor
  · intro none
    rw [url, if_pos (by simp [none])]
    exact resource
  · intro some
    refine ⟨(trimBase base ++ "/" ++ r.target.property).toList,
      ("&".intercalate r.options).toList, ?_, resource, ?_, ?_⟩
    · rw [url, if_neg (by simpa using some)]
      simp
    · have options : Avoids ['?'] ("&".intercalate r.options) :=
        avoids_intercalate (by decide) fun option hm => (ho option hm).mono (by decide)
      exact fun hm => options '?' hm (by decide)
    · rw [String.toList_intercalate]
      refine List.splitOn_intercalate '&' ?_ (by simpa using some)
      intro option hm hc
      obtain ⟨text, ht, rfl⟩ := List.mem_map.mp hm
      exact ho text ht '&' hc (by decide)

end Request

end OData

namespace Compile
open Query OData

variable {t : Snapshot} {root : Query.Entity}

/-- A summary with nothing in it is rejected. -/
theorem RequestOf.isAggregate_of_aggregate {fetch : Fetch} {r : Request}
    (h : RequestOf t fetch root r) (aggregate : fetch.aggregate = true) :
    r.isAggregate = true := by
  obtain ⟨record, collection, o, _, _, _, _, _, _, _, _, ho, _, _, _, rfl⟩ := h.parts
  have hg := ho {}
  rw [outline, if_pos aggregate] at hg
  obtain ⟨s, _, hs, hg⟩ := gives_bind.mp hg
  cases (gives_pure.mp hg).1
  obtain ⟨s', _, hs'⟩ := ok_of_bind (gives_ofExcept.mp hs).1
  split at hs'
  · cases hs'
  · rename_i full
    cases hs'
    simpa [Request.isAggregate, imp_iff_not_or] using full

end Compile

namespace WebQuery
open Query OData Compile

/-- Identifiers, with columns and titles that have no marks of options in them. -/
def unmarked : Lexicon where
  name := IsIdentifier
  column := Avoids optionMarks
  title := Avoids optionMarks
  identifier _ h := h
  lookup _ h := h.lookup
  entitled _ h := h.avoids (by decide)

/-- A base without a question mark and a schema with identifiers as names: if no column that is
compared with and no alias of an aggregate has a question mark or an ampersand in it, the URL has a
question mark only in front of its options, and ampersands only between them. They are one summary,
or each of the options of rows once at most and in their order. -/
theorem options_of_url {source : Source σ} {t : Snapshot} {s s' : σ} {base : String}
    {fetch : Fetch} {q : WebQuery} (stable : source.Shows t s) (unmarkedBase : '?' ∉ base.toList)
    (named : t.Named IsIdentifier)
    (columns : ∀ root, fetch.entity = some root →
      root.Each fun c => ∀ n, c.comparedColumn? = some n → Avoids ['?', '&'] n)
    (aliases : ∀ root, fetch.entity = some root → fetch.aggregate = true →
      ∀ c ∈ root.selection.columns, ∀ n, c.title? = some n → Avoids ['?', '&'] n)
    (converts : ofFetch source base fetch s = (.ok q, s')) :
    ∃ r, (request fetch).answer t = .ok r ∧ q.url = r.url base ∧
      (r.options = [] → '?' ∉ q.url.toList) ∧
      (r.options ≠ [] → ∃ before after, q.url.toList = before ++ '?' :: after ∧
        '?' ∉ before ∧ '?' ∉ after ∧ after.splitOn '&' = r.options.map String.toList) ∧
      if fetch.aggregate then ∃ text, r.options = ["$apply=" ++ text]
      else Request.Listed ["select", "expand", "filter", "orderby", "top"] r.options := by
  obtain ⟨r, hr, rfl⟩ := request_of_converts stable converts
  obtain ⟨root, h⟩ := requestOf_of_answer hr
  have keeps : fetch.Keeps unmarked := ⟨columns, aliases⟩
  have spelled : r.Spelled unmarked := h.spelled named keeps
  have property : IsIdentifier r.target.property := by
    cases spelled.target with
    | mk property _ _ _ => exact property
  obtain ⟨none, some⟩ := Request.split_url unmarkedBase property
    (Request.avoids_options (fun _ => id) (fun _ => id) spelled)
  refine ⟨r, hr, rfl, none, some, ?_⟩
  split
  · rename_i aggregate
    rw [Request.options, h.isAggregate_of_aggregate aggregate]
    exact ⟨r.apply, rfl⟩
  · rename_i rows
    exact Request.listed_options (h.isAggregate_eq (by simpa using rows))

def strangelyNamed : Query.Entity :=
  { name := "account", selection := { columns := [{ name := "name" }] },
    filters := [{ conditions := [
      { column := "name", operator := .eq, value := some "a?b&$top=1" },
      { column := "name", operator := .ne, valueOf := some "a#b;$top=1" }] }] }

/-- Marks in a value leave the two options of rows as they are. -/
theorem options_of_url_strangelyNamed :
    ∃ q s', ofFetch Catalog.source "org" { entity := some strangelyNamed } Catalog.sample =
        (.ok q, s') ∧
      q.url = "org/accounts?$select=name" ++
        "&$filter=(name eq 'a%3fb%26%24top%3d1' and name ne a#b;$top=1)" ∧
      ∃ r, (request { entity := some strangelyNamed }).answer Catalog.sample.snapshot = .ok r ∧
        r.options = ["$select=name",
          "$filter=(name eq 'a%3fb%26%24top%3d1' and name ne a#b;$top=1)"] ∧
        ∃ before after, q.url.toList = before ++ '?' :: after ∧ '?' ∉ before ∧ '?' ∉ after ∧
          after.splitOn '&' = r.options.map String.toList := by
  have converts : ofFetch Catalog.source "org" { entity := some strangelyNamed }
      Catalog.sample = (.ok ⟨"org/accounts?$select=name" ++
        "&$filter=(name eq 'a%3fb%26%24top%3d1' and name ne a#b;$top=1)", []⟩, _) :=
    Prod.ext (by decide +kernel) rfl
  have options : ((request { entity := some strangelyNamed }).answer Catalog.sample.snapshot).map
      Request.options = .ok ["$select=name",
        "$filter=(name eq 'a%3fb%26%24top%3d1' and name ne a#b;$top=1)"] := by
    decide +kernel
  have each : strangelyNamed.Each
      fun c => ∀ n, c.comparedColumn? = some n → Avoids ['?', '&'] n := by
    refine ⟨List.forall_mem_singleton.mpr (.mk (List.forall_mem_cons.mpr ⟨?_,
      List.forall_mem_singleton.mpr ?_⟩) ?_ ?_), ?_⟩
    · rintro n ⟨⟩
    · rintro n ⟨⟩
      decide
    all_goals exact List.forall_mem_nil _
  obtain ⟨r, hr, hurl, _, some, _⟩ := options_of_url (Catalog.shows _) (by decide)
    (Catalog.named_snapshot (by decide +kernel)) (by rintro root ⟨⟩; exact each)
    (by rintro root _ ⟨⟩) converts
  rw [hr] at options
  have options := Except.ok.inj options
  refine ⟨_, _, converts, rfl, r, hr, options, some ?_⟩
  rw [options]
  exact List.cons_ne_nil _ _

def comparedWithOption : Query.Entity :=
  { name := "account",
    filters := [{ conditions := [
      { column := "name", operator := .eq, valueOf := some "a&$top=1" }] }] }

def countedUnderOption : Query.Entity :=
  { name := "account", selection := { columns := [
      { name := "accountid", aliasName := some "a)&$top=(1", aggregate := some .count }] } }

/-- A column to compare with, or an alias, that has an ampersand in it adds an option to the one
that the request has. -/
theorem unmarked_texts_needed :
    (ofFetch Catalog.source "org" { entity := some comparedWithOption } Catalog.sample).1 =
        .ok ⟨"org/accounts?$filter=(name eq a&$top=1)", []⟩ ∧
      ((request { entity := some comparedWithOption }).answer Catalog.sample.snapshot).map
        Request.options = .ok ["$filter=(name eq a&$top=1)"] ∧
      "$filter=(name eq a&$top=1)".toList.splitOn '&' =
        ["$filter=(name eq a".toList, "$top=1)".toList] ∧
      (ofFetch Catalog.source "org" { aggregate := true, entity := some countedUnderOption }
        Catalog.sample).1 = .ok ⟨"org/accounts?$apply=aggregate($count as a)&$top=(1)", []⟩ ∧
      ((request { aggregate := true, entity := some countedUnderOption }).answer
        Catalog.sample.snapshot).map Request.options =
          .ok ["$apply=aggregate($count as a)&$top=(1)"] ∧
      "$apply=aggregate($count as a)&$top=(1)".toList.splitOn '&' =
        ["$apply=aggregate($count as a)".toList, "$top=(1)".toList] := by
  decide +kernel

end WebQuery

end FetchOData
