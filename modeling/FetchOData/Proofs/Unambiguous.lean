import FetchOData.Proofs.GroupReading
import FetchOData.Proofs.QueryOptions

namespace FetchOData

namespace Text

theorem takeWhile_of_mark {mark : Char} {cs after : List Char} (hc : mark ∉ cs)
    (ha : ∀ c ∈ after.head?, c = mark) : (cs ++ after).takeWhile (· != mark) = cs := by
  rw [List.takeWhile_append_of_pos]
  · cases after with
    | nil => simp
    | cons c after => simp [ha c rfl]
  · intro c hm
    simpa using ne_of_mem_of_not_mem hm hc

/-- A name ends where the mark behind it stands. -/
theorem append_inj_of_mark {mark : Char} {cs ds after after' : List Char} (hc : mark ∉ cs)
    (hd : mark ∉ ds) (ha : ∀ c ∈ after.head?, c = mark) (ha' : ∀ c ∈ after'.head?, c = mark)
    (h : cs ++ after = ds ++ after') : cs = ds ∧ after = after' := by
  have names : cs = ds := by
    rw [← takeWhile_of_mark hc ha, h, takeWhile_of_mark hd ha']
  subst names
  exact ⟨rfl, List.append_cancel_left h⟩

theorem separated_inj {separator : String} {c : Char} {marks : List Char}
    (hs : separator.toList = [c]) (hc : c ∉ ['\x27', '(', ')']) (hm : c ∈ marks)
    {items others : List String} (hi : ∀ item ∈ items, Sealed marks item.toList)
    (ho : ∀ other ∈ others, Sealed marks other.toList) (hne : items ≠ []) (hne' : others ≠ [])
    (h : separator.intercalate items = separator.intercalate others) : items = others := by
  have chars := congrArg String.toList h
  rw [String.toList_intercalate, String.toList_intercalate, hs] at chars
  exact map_toList_inj (intercalate_inj hc hm (List.forall_mem_map.mpr hi)
    (List.forall_mem_map.mpr ho) (by simpa using hne) (by simpa using hne') chars)

end Text

namespace OData
open Text

inductive Expand.Readable : Expand → Prop where
  | mk (property : IsIdentifier e.property) (select : ∀ n ∈ e.select, IsIdentifier n)
      (expand : ∀ nested ∈ e.expand, Expand.Readable nested)
      (filter : ∀ g ∈ e.filter, g.Readable) : Expand.Readable e

structure Request.Readable (r : Request) : Prop where
  target : r.target.Readable
  orderBy (o : Ordering) (h : o ∈ r.orderBy) : IsIdentifier o.property

def optionSeparators : List Char :=
  ['&', ';']

def separators : List Char :=
  ',' :: optionSeparators

theorem sealed_of_name {cs : List Char} (h : ∀ c ∈ cs, isNameChar c = true) :
    Sealed separators cs :=
  sealed_of_plain fun c hc =>
    ⟨apart_of_name h (by decide) c hc, apart_of_name h (by decide) c hc⟩

theorem sealed_option (name : String) (hn : ∀ c ∈ name.toList, isNameChar c = true)
    {value : String} (h : Sealed optionSeparators value.toList) :
    Sealed optionSeparators ("$" ++ name ++ "=" ++ value).toList := by
  have dollar : Sealed optionSeparators "$".toList := sealed_of_plain (by decide)
  have equals : Sealed optionSeparators "=".toList := sealed_of_plain (by decide)
  have key := (sealed_of_name hn).mono (List.subset_cons_self _ _)
  simp only [String.toList_append]
  exact ((dollar.append key).append equals).append h

theorem sealed_listOption (name : String) (hn : ∀ c ∈ name.toList, isNameChar c = true)
    {items : List String} (h : ∀ item ∈ items, Sealed separators item.toList) :
    ∀ option ∈ (option? name items).toList, Sealed optionSeparators option.toList := by
  unfold option?
  split
  · exact List.forall_mem_nil _
  · refine List.forall_mem_singleton.mpr (sealed_option name hn ?_)
    have comma : Sealed optionSeparators ",".toList := sealed_of_plain (by decide)
    rw [String.toList_intercalate]
    exact comma.intercalate (List.forall_mem_map.mpr fun item hm =>
      (h item hm).mono (List.subset_cons_self _ _))

theorem sealed_filterOption {gs : List Group} (h : ∀ g ∈ gs, g.Readable) :
    ∀ option ∈ (filterOption? gs).toList, Sealed optionSeparators option.toList := by
  unfold filterOption? Group.conjunction? conjunction?
  split
  · exact List.forall_mem_nil _
  · refine List.forall_mem_singleton.mpr (sealed_option "filter" (by decide) ?_)
    have between : Sealed optionSeparators " and ".toList := sealed_of_plain (by decide)
    rw [String.toList_intercalate]
    exact between.intercalate (List.forall_mem_map.mpr fun text hm =>
      (Group.parenthesized_texts h text hm).sealed (by decide))

theorem sealed_rowOptions {select expand : List String} {filter : List Group}
    (hs : ∀ n ∈ select, IsIdentifier n) (he : ∀ item ∈ expand, Sealed separators item.toList)
    (hf : ∀ g ∈ filter, g.Readable) :
    ∀ option ∈ rowOptions select expand filter, Sealed optionSeparators option.toList := by
  have selected := sealed_listOption "select" (by decide) fun n hn =>
    sealed_of_name (hs n hn).2
  exact List.forall_mem_append.mpr ⟨List.forall_mem_append.mpr
    ⟨selected, sealed_listOption "expand" (by decide) he⟩, sealed_filterOption hf⟩

theorem toList_withOptions (property : String) (options : List String) :
    (withOptions property options).toList = property.toList ++
      if options.isEmpty then [] else '(' :: ((";".intercalate options).toList ++ [')']) := by
  unfold withOptions
  split <;> simp

theorem sealed_withOptions {property : String} (hp : IsIdentifier property)
    {options : List String} (h : ∀ option ∈ options, Sealed optionSeparators option.toList) :
    Sealed separators (withOptions property options).toList := by
  have name := sealed_of_name hp.2
  rw [toList_withOptions]
  split
  · simpa using name
  · refine name.call (by decide) ?_
    have semicolon : Sealed [] ";".toList := sealed_of_plain (by decide)
    rw [String.toList_intercalate]
    exact (semicolon.intercalate (List.forall_mem_map.mpr fun option hm =>
      (h option hm).mono (List.nil_subset _))).closed

mutual
theorem Expand.sealed {e : Expand} (h : e.Readable) : Sealed separators e.text.toList := by
  match e, h with
  | ⟨property, select, expand, filter⟩, .mk hp hs he hf =>
    rw [Expand.text]
    exact sealed_withOptions hp (sealed_rowOptions hs (Expand.sealed_texts he) hf)
theorem Expand.sealed_texts {es : List Expand} (h : ∀ e ∈ es, e.Readable) :
    ∀ text ∈ Expand.texts es, Sealed separators text.toList := by
  match es with
  | [] => exact List.forall_mem_nil _
  | e :: es =>
    obtain ⟨he, hrest⟩ := List.forall_mem_cons.mp h
    rw [Expand.texts]
    exact List.forall_mem_cons.mpr ⟨Expand.sealed he, Expand.sealed_texts hrest⟩
end

theorem option?_inj {name : String} {items others : List String}
    (hi : ∀ item ∈ items, Sealed separators item.toList)
    (ho : ∀ other ∈ others, Sealed separators other.toList)
    (h : option? name items = option? name others) : items = others := by
  unfold option? at h
  split at h <;> split at h
  · simp_all
  · cases h
  · cases h
  · rename_i hne hne'
    have joined := (String.append_right_inj _).mp (Option.some.inj h)
    exact separated_inj rfl (by decide) List.mem_cons_self hi ho (by simpa using hne)
      (by simpa using hne') joined

theorem filterOption?_inj {gs gs' : List Group} (h : ∀ g ∈ gs, g.Readable)
    (h' : ∀ g ∈ gs', g.Readable) (he : filterOption? gs = filterOption? gs') :
    Group.normals gs = Group.normals gs' := by
  apply Group.normals_inj h h'
  have items {gs : List Group} (h : ∀ g ∈ gs, g.Readable) :
      ∀ text ∈ Group.texts gs, IsItem text.toList :=
    fun text hm => (Group.parenthesized_texts h text hm).isItem
  apply conjunction?_inj (items h) (items h')
  exact Option.map_injective (fun _ _ => (String.append_right_inj _).mp) he

namespace Request

theorem IsOption.name_eq {name other option : String} (hn : '=' ∉ name.toList)
    (ho : '=' ∉ other.toList) (h : IsOption name option) (h' : IsOption other option) :
    name = other := by
  obtain ⟨value, rfl⟩ := h
  obtain ⟨value', he⟩ := h'
  have chars := congrArg String.toList he
  simp only [String.toList_append, List.append_assoc] at chars
  have names := append_inj_of_mark hn ho (by simp) (by simp) (List.append_cancel_left chars)
  exact String.toList_inj.mp names.1

theorem isOption_of_mem {names : List String} {parts : List (Option String)}
    (h : List.Forall₂ Named names parts) {option : String}
    (ho : option ∈ parts.flatMap Option.toList) : ∃ name ∈ names, IsOption name option := by
  obtain ⟨part, hp, ho⟩ := List.mem_flatMap.mp ho
  obtain ⟨name, hn, named⟩ := exists_of_forall₂_mem h.flip hp
  exact ⟨name, hn, named option (by simpa using ho)⟩

/-- Options are told apart by their names. -/
theorem parts_inj {names : List String} (distinct : names.Nodup)
    (plain : ∀ name ∈ names, '=' ∉ name.toList) {parts parts' : List (Option String)}
    (h : List.Forall₂ Named names parts) (h' : List.Forall₂ Named names parts')
    (he : parts.flatMap Option.toList = parts'.flatMap Option.toList) : parts = parts' := by
  induction h generalizing parts' with
  | nil =>
    cases h'
    rfl
  | @cons name o names parts hn hrest ih =>
    obtain ⟨hname, hnames⟩ := List.forall_mem_cons.mp plain
    obtain ⟨hnew, hdistinct⟩ := List.nodup_cons.mp distinct
    have foreign {option : String} {others : List (Option String)} (ho : IsOption name option)
        (hothers : List.Forall₂ Named names others) :
        option ∉ others.flatMap Option.toList := by
      intro hm
      obtain ⟨other, hother, ho'⟩ := isOption_of_mem hothers hm
      exact hnew (ho.name_eq hname (hnames other hother) ho' ▸ hother)
    cases h' with
    | @cons _ o' _ parts' hn' hrest' =>
      rw [List.flatMap_cons, List.flatMap_cons] at he
      match o, o' with
      | none, none => rw [ih hdistinct hnames hrest' he]
      | some option, some option' =>
        obtain ⟨rfl, tail⟩ := List.cons.inj he
        rw [ih hdistinct hnames hrest' tail]
      -- An option on one side alone would have to have a later name on the other.
      | some option, none =>
        change option :: parts.flatMap Option.toList = parts'.flatMap Option.toList at he
        exact absurd (he ▸ List.mem_cons_self) (foreign (hn option rfl) hrest')
      | none, some option =>
        change parts.flatMap Option.toList = option :: parts'.flatMap Option.toList at he
        exact absurd (he ▸ List.mem_cons_self) (foreign (hn' option rfl) hrest)

end Request

theorem rowOptions_inj {select select' expand expand' : List String} {filter filter' : List Group}
    (h : rowOptions select expand filter = rowOptions select' expand' filter') :
    option? "select" select = option? "select" select' ∧
      option? "expand" expand = option? "expand" expand' ∧
      filterOption? filter = filterOption? filter' := by
  have named (select expand : List String) (filter : List Group) :
      List.Forall₂ Request.Named ["select", "expand", "filter"]
        [option? "select" select, option? "expand" expand, filterOption? filter] :=
    .cons (Request.named_option _ _) (.cons (Request.named_option _ _)
      (.cons (Request.named_filterOption _) .nil))
  have parts := Request.parts_inj (by decide) (by decide) (named select expand filter)
    (named select' expand' filter') (by simpa [rowOptions] using h)
  simpa using parts

/-- A name and options behind a mark can be read back from what they are put together to. -/
theorem marked_inj {mark c : Char} {separator : String} {tail : List Char}
    {name name' : String} {options options' : List String} (hm : isNameChar mark = false)
    (hn : IsIdentifier name) (hn' : IsIdentifier name') (hs : separator.toList = [c])
    (hc : c ∈ optionSeparators) (ho : ∀ option ∈ options, Sealed optionSeparators option.toList)
    (ho' : ∀ option ∈ options', Sealed optionSeparators option.toList)
    (h : name.toList ++ (if options.isEmpty then [] else
        mark :: ((separator.intercalate options).toList ++ tail)) =
      name'.toList ++ if options'.isEmpty then [] else
        mark :: ((separator.intercalate options').toList ++ tail)) :
    name = name' ∧ options = options' := by
  have marked {options : List String} : ∀ c ∈ (if options.isEmpty then [] else
      mark :: ((separator.intercalate options).toList ++ tail)).head?, c = mark := by
    split <;> simp
  obtain ⟨names, after⟩ := append_inj_of_mark (not_mem_of_name hn.2 hm)
    (not_mem_of_name hn'.2 hm) marked marked h
  refine ⟨String.toList_inj.mp names, ?_⟩
  split at after <;> split at after
  · simp_all
  · cases after
  · cases after
  · rename_i hne hne'
    have joined := List.append_cancel_right (List.cons.inj after).2
    have plain : ∀ c ∈ optionSeparators, c ∉ ['\x27', '(', ')'] := by decide
    exact separated_inj hs (plain c hc) hc ho ho' (by simpa using hne) (by simpa using hne')
      (String.toList_inj.mp joined)

mutual
/-- Navigation properties with one text ask for the same, as far as it is written. -/
theorem Expand.normal_inj {e e' : Expand} (h : e.Readable) (h' : e'.Readable)
    (ht : e.text = e'.text) : e.normal = e'.normal := by
  match e, e', h, h' with
  | ⟨p, s, es, gs⟩, ⟨p', s', es', gs'⟩, .mk hp hs he hg, .mk hp' hs' he' hg' =>
    dsimp only at hp hs he hg hp' hs' he' hg'
    have chars := congrArg String.toList ht
    rw [Expand.text, Expand.text, toList_withOptions, toList_withOptions] at chars
    obtain ⟨rfl, options⟩ := marked_inj (by decide) hp hp' rfl (by decide)
      (sealed_rowOptions hs (Expand.sealed_texts he) hg)
      (sealed_rowOptions hs' (Expand.sealed_texts he') hg') chars
    obtain ⟨select, expand, filter⟩ := rowOptions_inj options
    have names {s : List String} (h : ∀ n ∈ s, IsIdentifier n) :
        ∀ n ∈ s, Sealed separators n.toList := fun n hn => sealed_of_name (h n hn).2
    rw [Expand.normal, Expand.normal, option?_inj (names hs) (names hs') select,
      filterOption?_inj hg hg' filter]
    have texts := option?_inj (Expand.sealed_texts he) (Expand.sealed_texts he') expand
    rw [Expand.normals_inj he he' texts]
theorem Expand.normals_inj {es es' : List Expand} (h : ∀ e ∈ es, e.Readable)
    (h' : ∀ e ∈ es', e.Readable) (ht : Expand.texts es = Expand.texts es') :
    Expand.normals es = Expand.normals es' := by
  match es, es' with
  | [], [] => rfl
  | [], _ :: _ => cases ht
  | _ :: _, [] => cases ht
  | e :: es, e' :: es' =>
    obtain ⟨he, hrest⟩ := List.forall_mem_cons.mp h
    obtain ⟨he', hrest'⟩ := List.forall_mem_cons.mp h'
    rw [Expand.texts, Expand.texts] at ht
    obtain ⟨head, tail⟩ := List.cons.inj ht
    rw [Expand.normals, Expand.normals, Expand.normal_inj he he' head,
      Expand.normals_inj hrest hrest' tail]
end

theorem Ordering.sealed {o : Ordering} (h : IsIdentifier o.property) :
    Sealed separators o.text.toList := by
  rw [Ordering.text, String.toList_append]
  refine (sealed_of_name h.2).append ?_
  split <;> exact sealed_of_plain (by decide)

theorem Ordering.text_inj {o o' : Ordering} (h : IsIdentifier o.property)
    (h' : IsIdentifier o'.property) (ht : o.text = o'.text) : o = o' := by
  have chars := congrArg String.toList ht
  rw [Ordering.text, Ordering.text, String.toList_append, String.toList_append] at chars
  have spaced (b : Bool) : ∀ c ∈ (if b then " desc" else " asc").toList.head?, c = ' ' := by
    cases b <;> simp
  obtain ⟨names, directions⟩ := append_inj_of_mark (not_mem_of_name h.2 (by decide))
    (not_mem_of_name h'.2 (by decide)) (spaced _) (spaced _) chars
  obtain ⟨property, descending⟩ := o
  obtain ⟨property', descending'⟩ := o'
  obtain rfl := String.toList_inj.mp names
  revert directions
  cases descending <;> cases descending' <;> simp

theorem Ordering.map_text_inj {os os' : List Ordering} (h : ∀ o ∈ os, IsIdentifier o.property)
    (h' : ∀ o ∈ os', IsIdentifier o.property)
    (ht : os.map Ordering.text = os'.map Ordering.text) : os = os' := by
  induction os generalizing os' with
  | nil =>
    cases os' with
    | nil => rfl
    | cons _ _ => cases ht
  | cons o os ih =>
    cases os' with
    | nil => cases ht
    | cons o' os' =>
      obtain ⟨ho, hrest⟩ := List.forall_mem_cons.mp h
      obtain ⟨ho', hrest'⟩ := List.forall_mem_cons.mp h'
      obtain ⟨head, tail⟩ := List.cons.inj ht
      rw [Ordering.text_inj ho ho' head, ih hrest hrest' tail]

namespace Request

variable {r r' : Request}

theorem top_inj (h : r.topOption? = r'.topOption?) : r.top = r'.top := by
  refine Option.map_injective (fun m n hmn => ?_) h
  have numerals := (String.append_right_inj _).mp hmn
  have digits := congrArg String.toList numerals
  simp only [Number.integerText, String.toList_ofList] at digits
  exact UInt32.toNat_inj.mp (Number.digits_inj digits)

theorem sealed_topOption (r : Request) :
    ∀ option ∈ r.topOption?.toList, Sealed optionSeparators option.toList := by
  unfold topOption?
  cases r.top with
  | none => exact List.forall_mem_nil _
  | some n =>
    refine List.forall_mem_singleton.mpr (sealed_option "top" (by decide) ?_)
    have plain : ∀ c ∈ Literal.numeralChars, c ∉ ['\x27', '(', ')'] ∧ c ∉ optionSeparators := by
      decide
    exact sealed_of_plain fun c hc => plain c (Literal.mem_integerText hc)

theorem sealed_options (rows : r.isAggregate = false) (h : r.Readable) :
    ∀ option ∈ r.options, Sealed optionSeparators option.toList := by
  have target : ∀ option ∈ r.target.options, Sealed optionSeparators option.toList := by
    cases h.target with
    | mk _ hs he hf => exact sealed_rowOptions hs (Expand.sealed_texts he) hf
  have ordered : ∀ text ∈ r.orderBy.map Ordering.text, Sealed separators text.toList :=
    List.forall_mem_map.mpr fun o ho => Ordering.sealed (h.orderBy o ho)
  rw [options, rows]
  exact List.forall_mem_append.mpr ⟨List.forall_mem_append.mpr
    ⟨target, sealed_listOption "orderby" (by decide) ordered⟩, r.sealed_topOption⟩

theorem toList_relative (r : Request) :
    r.relative.toList = r.target.property.toList ++
      if r.options.isEmpty then [] else '?' :: (("&".intercalate r.options).toList ++ []) := by
  unfold relative
  split <;> simp

theorem relative_inj (rows : r.isAggregate = false) (rows' : r'.isAggregate = false)
    (h : r.Readable) (h' : r'.Readable) (he : r.relative = r'.relative) :
    r.target.property = r'.target.property ∧ r.rowParts = r'.rowParts := by
  have property {r : Request} (h : r.Readable) : IsIdentifier r.target.property := by
    cases h.target with
    | mk hp _ _ _ => exact hp
  have chars := congrArg String.toList he
  rw [toList_relative, toList_relative] at chars
  obtain ⟨names, options⟩ := marked_inj (by decide) (property h) (property h') rfl (by decide)
    (sealed_options rows h) (sealed_options rows' h') chars
  refine ⟨names, parts_inj (by decide) (by decide) r.named_rowParts r'.named_rowParts ?_⟩
  rw [← options_eq_rowParts rows, options, options_eq_rowParts rows']

/-- Two requests for rows, in which names are identifiers and conditions keep to themselves, have the
same URL exactly when they ask for the same: the same collection, columns, navigation properties and
filters as far as they are written, the same order and the same number of rows. -/
theorem url_eq_iff_normals_eq (rows : r.isAggregate = false) (rows' : r'.isAggregate = false)
    (readable : r.Readable) (readable' : r'.Readable) (base : String) :
    r.url base = r'.url base ↔
      r.target.property = r'.target.property ∧ r.target.select = r'.target.select ∧
        Expand.normals r.target.expand = Expand.normals r'.target.expand ∧
        Group.normals r.target.filter = Group.normals r'.target.filter ∧
        r.orderBy = r'.orderBy ∧ r.top = r'.top := by
  rw [url_eq, url_eq, String.append_right_inj]
  constructor
  · intro h
    obtain ⟨property, parts⟩ := relative_inj rows rows' readable readable' h
    simp only [rowParts, List.cons.injEq, and_true] at parts
    obtain ⟨select, expand, filter, orderBy, top⟩ := parts
    cases readable.target with
    | mk _ hs he hf =>
      cases readable'.target with
      | mk _ hs' he' hf' =>
        refine ⟨property, ?_, ?_, filterOption?_inj hf hf' filter, ?_, top_inj top⟩
        · exact option?_inj (fun n hn => sealed_of_name (hs n hn).2)
            (fun n hn => sealed_of_name (hs' n hn).2) select
        · exact Expand.normals_inj he he'
            (option?_inj (Expand.sealed_texts he) (Expand.sealed_texts he') expand)
        · refine Ordering.map_text_inj readable.orderBy readable'.orderBy (option?_inj ?_ ?_ orderBy)
          · exact List.forall_mem_map.mpr fun o ho => Ordering.sealed (readable.orderBy o ho)
          · exact List.forall_mem_map.mpr fun o ho => Ordering.sealed (readable'.orderBy o ho)
  · rintro ⟨property, select, expand, filter, orderBy, top⟩
    have texts : Expand.texts r.target.expand = Expand.texts r'.target.expand := by
      rw [← Expand.texts_normals, expand, Expand.texts_normals]
    have filters : filterOption? r.target.filter = filterOption? r'.target.filter := by
      rw [← filterOption?_normals, filter, filterOption?_normals]
    have parts : r.rowParts = r'.rowParts := by
      simp only [rowParts, topOption?, select, texts, filters, orderBy, top]
    rw [relative, relative, options_eq_rowParts rows, options_eq_rowParts rows', property, parts]

def emptyColumn (connective : Connective) (column : String) (beside : List Group) : Group :=
  ⟨connective, [.verbatim "", .isNull ⟨[], column, false⟩ false], beside⟩

def nameless (connective : Connective) (beside : List Group) : Request :=
  { target := ⟨"accounts", ["name"],
      [⟨"contacts", ["firstname", "lastname"], [], [emptyColumn connective "lastname" beside]⟩],
      [emptyColumn connective "name" beside]⟩,
    orderBy := [⟨"name", true⟩], top := some 5 }

theorem readable_emptyColumn {connective : Connective} {column : String} {beside : List Group}
    (hc : IsOrdinary column) (hb : ∀ g ∈ beside, g.Readable) :
    (emptyColumn connective column beside).Readable := by
  refine .mk (List.forall_mem_cons.mpr ⟨fun hne => absurd rfl hne,
    List.forall_mem_singleton.mpr fun _ => ?_⟩) hb
  have bare : ∀ n ∈ ([] : List String), IsVariable n.toList :=
    List.forall_mem_nil _
  have property : Property.Spelled ordinary [] ⟨[], column, false⟩ :=
    ⟨List.forall_mem_nil _, hc⟩
  exact (Predicate.Spelled.isNull property).selfContained bare

theorem readable_nameless {connective : Connective} {beside : List Group}
    (hb : ∀ g ∈ beside, g.Readable) : (nameless connective beside).Readable := by
  have accounts : IsIdentifier "accounts" ∧ ∀ n ∈ ["name"], IsIdentifier n := by decide
  have contacts : IsIdentifier "contacts" ∧ ∀ n ∈ ["firstname", "lastname"], IsIdentifier n := by
    decide
  have orderings : ∀ o ∈ [(⟨"name", true⟩ : Ordering)], IsIdentifier o.property := by decide
  refine ⟨.mk accounts.1 accounts.2 (List.forall_mem_singleton.mpr (.mk contacts.1 contacts.2
    (List.forall_mem_nil _) ?_)) ?_, orderings⟩
  all_goals exact List.forall_mem_singleton.mpr (readable_emptyColumn (by decide) hb)

/-- A connective and a group that are not written make no difference. -/
theorem url_eq_iff_normals_eq_nameless :
    (nameless .and []).url "org" =
        "org/accounts?$select=name&$expand=contacts($select=firstname,lastname;" ++
          "$filter=(lastname eq null))&$filter=(name eq null)&$orderby=name desc&$top=5" ∧
      (nameless .or [{}]).url "org" = (nameless .and []).url "org" ∧
      Expand.normals (nameless .or [{}]).target.expand =
        Expand.normals (nameless .and []).target.expand ∧
      Group.normals (nameless .or [{}]).target.filter =
        Group.normals (nameless .and []).target.filter := by
  have same : (nameless .or [{}]).url "org" = (nameless .and []).url "org" := by decide +kernel
  have nothing : ∀ g ∈ [({} : Group)], g.Readable :=
    List.forall_mem_singleton.mpr (.mk (List.forall_mem_nil _)
      (List.forall_mem_nil _))
  obtain ⟨_, _, expand, filter, _, _⟩ := (url_eq_iff_normals_eq rfl rfl (readable_nameless nothing)
    (readable_nameless (List.forall_mem_nil _)) "org").mp same
  exact ⟨by decide +kernel, same, expand, filter⟩

end Request

end OData

end FetchOData
