import FetchOData.Proofs.Spelling

namespace FetchOData
open Text

def Lexicon.Heads (L : Lexicon) (scope : List String) (w : List Char) : Prop :=
  ∃ n, (L.name n ∨ n ∈ scope) ∧ n.toList = w

theorem Lexicon.heads_cons (L : Lexicon) (scope : List String) (range : String) :
    L.Heads (range :: scope) = fun w => L.Heads scope w ∨ w = range.toList := by
  funext w
  apply propext
  constructor
  · rintro ⟨n, hn | hn, rfl⟩
    · exact Or.inl ⟨n, Or.inl hn, rfl⟩
    · rcases List.mem_cons.mp hn with rfl | hn
      · exact Or.inr rfl
      · exact Or.inl ⟨n, Or.inr hn, rfl⟩
  · rintro (⟨n, hn, rfl⟩ | rfl)
    · exact ⟨n, hn.imp_right (List.mem_cons_of_mem _), rfl⟩
    · exact ⟨range, Or.inr List.mem_cons_self, rfl⟩

namespace Text

variable {scope : List Char → Prop} {cs ds : List Char} {bs bs' : List (List Char)}

/-- Text without quotes, parentheses and the marks of paths and binders. -/
theorem phrase_of_words (h : ∀ c ∈ cs, c ∉ ['\x27', '(', ')', '/', '%', ':']) :
    Phrase scope cs [] := by
  refine .plain (fun c hc hm => h c hc ?_) fun w _ hp => ?_
  · simp only [List.mem_cons] at hm ⊢
    tauto
  · exact h ':' (hp.subset (by simp)) (by simp)

theorem phrase_nil : Phrase scope [] [] :=
  phrase_of_words (List.forall_mem_nil _)

theorem phrase_of_name (h : ∀ c ∈ cs, isNameChar c = true) : Phrase scope cs [] :=
  phrase_of_words (apart_of_name h (by decide))

theorem quote_not_mem_encode (s : String) : ∀ c ∈ (encode s).toList, c ∉ ['\x27', ':'] := by
  intro c hc hm
  have hp := mem_encode hc
  simp only [List.mem_cons, List.not_mem_nil, or_false] at hm
  rcases hm with rfl | rfl <;> revert hp <;> decide

theorem phrase_quoted (s : String) : Phrase scope (quoted s).toList [] := by
  have h : Phrase scope _ [] :=
    .quoted (quote_not_mem_encode (String.ofList (s.toList.flatMap doubleQuote)))
  simpa [quoted] using h

theorem phrase_literal {s : String} (h : Literal.IsWritten s) : Phrase scope s.toList [] := by
  rcases h with ⟨text, rfl⟩ | h
  · exact phrase_quoted text
  · refine .plain (fun c hc hm => ?_) fun w hw hp => ?_
    · have others : ∀ c ∈ ['\x27', '(', ')', '/', '%'], c ∉ Literal.bareChars := by decide
      exact others c hm (h c hc)
    · -- Neither letter that begins a variable is in a bare literal.
      obtain ⟨c, ds, rfl, hc, _⟩ := hw
      have hb := h c (hp.subset (by simp))
      rcases hc with rfl | rfl <;> revert hb <;> decide

theorem Phrase.spaced (first : Phrase scope cs bs) (second : Phrase scope ds bs') :
    Phrase scope (cs ++ ' ' :: ds) (bs ++ bs') :=
  first.beside (by decide) second

/-- A name and what follows its equals sign. -/
theorem phrase_assign (name : String) (h : ∀ c ∈ name.toList, isNameChar c = true)
    (second : Phrase scope ds bs') : Phrase scope (name.toList ++ '=' :: ds) bs' :=
  (phrase_of_name h).beside (by decide) second

/-- A text that is a phrase and binds some of the range variables, each as often as it is listed at
most. -/
def Wording (scope : List Char → Prop) (text : String) (ranges : List String) : Prop :=
  ∃ bs, Phrase scope text.toList bs ∧ bs.Sublist (ranges.map String.toList)

def Wordings (scope : List Char → Prop) (texts ranges : List String) : Prop :=
  ∃ bss, List.Forall₂ (Phrase scope) (texts.map String.toList) bss ∧
    bss.flatten.Sublist (ranges.map String.toList)

variable {text : String} {texts others ranges more : List String}

theorem wording_of_phrase (h : Phrase scope text.toList []) : Wording scope text ranges :=
  ⟨[], h, List.nil_sublist _⟩

theorem wordings_nil : Wordings scope [] ranges :=
  ⟨[], .nil, List.nil_sublist _⟩

theorem Wording.mono (h : Wording scope text ranges) (hr : ranges.Sublist more) :
    Wording scope text more := by
  obtain ⟨bs, hp, hs⟩ := h
  exact ⟨bs, hp, hs.trans (hr.map _)⟩

theorem Wordings.mono (h : Wordings scope texts ranges) (hr : ranges.Sublist more) :
    Wordings scope texts more := by
  obtain ⟨bss, hp, hs⟩ := h
  exact ⟨bss, hp, hs.trans (hr.map _)⟩

theorem Wording.singleton (h : Wording scope text ranges) : Wordings scope [text] ranges := by
  obtain ⟨bs, hp, hs⟩ := h
  exact ⟨[bs], .cons hp .nil, by simpa using hs⟩

theorem Wordings.append (h : Wordings scope texts ranges) (h' : Wordings scope others more) :
    Wordings scope (texts ++ others) (ranges ++ more) := by
  obtain ⟨bss, hp, hs⟩ := h
  obtain ⟨bss', hp', hs'⟩ := h'
  refine ⟨bss ++ bss', ?_, ?_⟩
  · rw [List.map_append]
    exact List.rel_append hp hp'
  · rw [List.flatten_append, List.map_append]
    exact hs.append hs'

theorem Wordings.cons (first : Wording scope text ranges) (rest : Wordings scope texts more) :
    Wordings scope (text :: texts) (ranges ++ more) :=
  first.singleton.append rest

theorem wordings_of_phrases (h : ∀ text ∈ texts, Phrase scope text.toList []) :
    Wordings scope texts ranges := by
  induction texts with
  | nil => exact wordings_nil
  | cons text texts ih =>
    obtain ⟨first, rest⟩ := List.forall_mem_cons.mp h
    have hw : Wording scope text [] := wording_of_phrase first
    exact Wordings.cons hw (ih rest)

theorem Wordings.intercalate {separator : String}
    (hs : ∀ cs ds bs bs', Phrase scope cs bs → Phrase scope ds bs' →
      Phrase scope (cs ++ separator.toList ++ ds) (bs ++ bs'))
    (h : Wordings scope texts ranges) : Wording scope (separator.intercalate texts) ranges := by
  obtain ⟨bss, hp, hsub⟩ := h
  refine ⟨bss.flatten, ?_, hsub⟩
  rw [String.toList_intercalate]
  exact Phrase.intercalate hs hp

theorem Wordings.connected (h : Wordings scope texts ranges) (connective : Connective) :
    Wording scope ((" " ++ connective.word ++ " ").intercalate texts) ranges := by
  refine h.intercalate fun cs ds bs bs' hc hd => ?_
  have word : ∀ c ∈ connective.word.toList, isNameChar c = true := by
    cases connective <;> decide
  simpa using hc.spaced ((phrase_of_name word).spaced hd)

theorem Wordings.separated (h : Wordings scope texts ranges) (separator : String) {c : Char}
    (hs : separator.toList = [c]) (hc : isBreak c = true) :
    Wording scope (separator.intercalate texts) ranges := by
  refine h.intercalate fun cs ds bs bs' hcs hds => ?_
  rw [hs]
  simpa using hcs.beside hc hds

/-- A word in front of a text in parentheses. -/
theorem Wording.parenthesized (h : Wording scope text ranges) (word : String)
    (hw : ∀ c ∈ word.toList, isNameChar c = true) :
    Wording scope (word ++ "(" ++ text ++ ")") ranges := by
  obtain ⟨bs, hp, hs⟩ := h
  refine ⟨bs, ?_, hs⟩
  simpa using Phrase.parens (phrase_of_name hw) hp phrase_nil

end Text

namespace OData
open Query (Quantifier)

mutual
def Predicate.ranges : Predicate → List String
  | .related _ _ _ _ range body => range :: Group.rangesAll body
  | _ => []
def Group.ranges : Group → List String
  | ⟨_, predicates, groups⟩ => Predicate.rangesAll predicates ++ Group.rangesAll groups
def Predicate.rangesAll : List Predicate → List String
  | [] => []
  | p :: ps => p.ranges ++ Predicate.rangesAll ps
def Group.rangesAll : List Group → List String
  | [] => []
  | g :: gs => g.ranges ++ Group.rangesAll gs
end

mutual
def Expand.ranges : Expand → List String
  | ⟨_, _, expand, filter⟩ => Expand.rangesAll expand ++ Group.rangesAll filter
def Expand.rangesAll : List Expand → List String
  | [] => []
  | e :: es => e.ranges ++ Expand.rangesAll es
end

variable {L : Lexicon} {scope : List String} {cs : List Char} {bs : List (List Char)}

/-- A name of the lexicon, or a variable in scope. -/
theorem isNameChar_of_segment (hs : ∀ n ∈ scope, IsVariable n.toList) {segment : String}
    (h : L.name segment ∨ segment ∈ scope) : ∀ c ∈ segment.toList, isNameChar c = true := by
  rcases h with h | h
  · exact (L.identifier segment h).2
  · exact (hs segment h).isNameChar

/-- A path in front of a phrase makes a phrase. -/
theorem phrase_path (hs : ∀ n ∈ scope, IsVariable n.toList) {path : Path}
    (h : path.Spelled L scope) (tail : Phrase (L.Heads scope) cs bs) :
    Phrase (L.Heads scope) (path.text.toList ++ cs) bs := by
  induction path with
  | nil => exact tail
  | cons segment rest ih =>
    obtain ⟨hsegment, hrest⟩ := List.forall_mem_cons.mp h
    have hp := Phrase.segment (isNameChar_of_segment hs hsegment)
      (fun _ => ⟨segment, hsegment, rfl⟩) (Or.inl rfl) (ih hrest)
    simpa [Path.text] using hp

theorem phrase_property (hs : ∀ n ∈ scope, IsVariable n.toList) {p : Property}
    (h : p.Spelled L scope) : Phrase (L.Heads scope) p.text.toList [] := by
  have name := (L.identifier _ h.name).2
  have tail : Phrase (L.Heads scope) (p.name ++ (if p.managed then "/Value" else "")).toList [] := by
    split
    · have value : Phrase (L.Heads scope) "Value".toList [] := phrase_of_name (by decide)
      have hp := Phrase.segment name (fun _ => ⟨p.name, Or.inl h.name, rfl⟩) (Or.inl rfl) value
      simpa using hp
    · simpa using phrase_of_name name
  have hp := phrase_path hs h.path tail
  simpa [Property.text] using hp

theorem isPlain_of_isNameChar {c : Char} (h : isNameChar c = true) : isPlain c = true := by
  simp only [isNameChar, Bool.or_eq_true] at h
  simp only [isPlain, Bool.or_eq_true]
  tauto

/-- In an encoded path each segment but the first follows what is left of an escape. -/
theorem encode_cons {segment : String} (h : ∀ c ∈ segment.toList, isNameChar c = true)
    (rest : Path) (column : String) :
    (encode (Path.text (segment :: rest) ++ column)).toList =
      segment.toList ++ '%' :: ("2f".toList ++ (encode (rest.text ++ column)).toList) := by
  have plain : encode segment = segment :=
    encode_of_plain fun c hc => isPlain_of_isNameChar (h c hc)
  rw [Path.text, String.append_assoc, encode_append, encode_append, encode_slash, plain]
  simp

theorem encode_name {column : String} (h : L.name column) : encode column = column :=
  encode_of_plain fun c hc => isPlain_of_isNameChar ((L.identifier _ h).2 c hc)

theorem phrase_escaped (hs : ∀ n ∈ scope, IsVariable n.toList) {path : Path}
    (h : path.Spelled L scope) {column : String} (hc : L.name column) :
    Phrase (L.Heads scope) ("2f".toList ++ (encode (path.text ++ column)).toList) [] := by
  have digits : ∀ c ∈ "2f".toList, isNameChar c = true := by decide
  induction path with
  | nil =>
    rw [Path.text, String.empty_append, encode_name hc]
    exact phrase_of_name (List.forall_mem_append.mpr ⟨digits, (L.identifier _ hc).2⟩)
  | cons segment rest ih =>
    obtain ⟨hsegment, hrest⟩ := List.forall_mem_cons.mp h
    have name := isNameChar_of_segment hs hsegment
    rw [encode_cons name, ← List.append_assoc]
    refine .segment (List.forall_mem_append.mpr ⟨digits, name⟩) ?_ (Or.inr rfl) (ih hrest)
    rintro ⟨c, ds, he, hc, _⟩
    have first : '2' = c := by simpa using congrArg List.head? he
    rcases hc with rfl | rfl <;> exact absurd first (by decide)

theorem phrase_encoded (hs : ∀ n ∈ scope, IsVariable n.toList) {path : Path}
    (h : path.Spelled L scope) {column : String} (hc : L.name column) :
    Phrase (L.Heads scope) (encode (path.text ++ column)).toList [] := by
  cases path with
  | nil =>
    rw [Path.text, String.empty_append, encode_name hc]
    exact phrase_of_name (L.identifier _ hc).2
  | cons segment rest =>
    obtain ⟨hsegment, hrest⟩ := List.forall_mem_cons.mp h
    have name := isNameChar_of_segment hs hsegment
    rw [encode_cons name]
    exact .segment name (fun _ => ⟨segment, hsegment, rfl⟩) (Or.inr rfl) (phrase_escaped hs hrest hc)

theorem phrase_negation {scope : List Char → Prop} (negated : Bool) (h : Phrase scope cs bs) :
    Phrase scope ((negation negated).toList ++ cs) bs := by
  cases negated with
  | false => exact h
  | true =>
    have word : Phrase scope "not".toList [] := phrase_of_name (by decide)
    exact word.spaced h

/-- The arguments of a text test. -/
theorem phrase_testArguments (hs : ∀ n ∈ scope, IsVariable n.toList) {path : Path}
    (h : path.Spelled L scope) {column : String} (hc : L.name column) (text : String) :
    Phrase (L.Heads scope)
      ((encode (path.text ++ column)).toList ++ ',' :: ' ' :: (quoted text).toList) [] :=
  (phrase_encoded hs h hc).beside (by decide) (phrase_nil.spaced (phrase_quoted text))

theorem phrase_values {scope : List Char → Prop} {values : List String}
    (h : ∀ value ∈ values, Literal.IsWritten value) :
    Phrase scope (",".intercalate values).toList [] := by
  have each : Wordings scope values [] :=
    wordings_of_phrases fun value hv => phrase_literal (h value hv)
  obtain ⟨bs, hp, hs⟩ := each.separated "," rfl (by decide)
  rwa [List.sublist_nil.mp hs] at hp

theorem phrase_arguments {scope : List Char → Prop} {a : Arguments} (h : a.Spelled)
    (first : Phrase scope cs []) : Phrase scope (cs ++ a.text.toList) [] := by
  have comma {ds : List Char} (hd : Phrase scope ds []) : Phrase scope (cs ++ ',' :: ds) [] :=
    first.beside (by decide) hd
  cases a with
  | none =>
    have empty : Arguments.none.text.toList = [] := rfl
    rwa [empty, List.append_nil]
  | one value =>
    have hv := comma (phrase_assign "PropertyValue" (by decide) (phrase_literal h))
    change Phrase scope (cs ++ (",PropertyValue=" ++ value).toList) []
    simpa using hv
  | two v w =>
    have hw : Phrase scope _ [] := phrase_assign "Property2" (by decide) (phrase_literal h.2)
    have hv := comma (phrase_assign "Property1" (by decide)
      ((phrase_literal h.1).beside (c := ',') (by decide) hw))
    change Phrase scope (cs ++ (",Property1=" ++ v ++ ",Property2=" ++ w).toList) []
    simpa using hv
  | many values =>
    have list : Phrase scope ('[' :: ((",".intercalate values).toList ++ [']'])) [] :=
      phrase_nil.beside (by decide) ((phrase_values h).beside (by decide) phrase_nil)
    have hv := comma (phrase_assign "PropertyValues" (by decide) list)
    change Phrase scope (cs ++ (",PropertyValues=[" ++ ",".intercalate values ++ "]").toList) []
    simpa using hv

/-- The arguments of a query function. -/
theorem phrase_callArguments {scope : List Char → Prop} (column : String) {a : Arguments}
    (h : a.Spelled) :
    Phrase scope ("PropertyName=\x27".toList ++ (encode column).toList ++ '\x27' :: a.text.toList)
      [] := by
  have name : Phrase scope ('\x27' :: (encode column).toList ++ ['\x27']) [] :=
    .quoted (quote_not_mem_encode column)
  have hp := phrase_assign "PropertyName" (by decide) (phrase_arguments h name)
  simpa using hp

/-- A variable with a body after it, in parentheses. -/
theorem phrase_bind {range : String} (fits : IsVariable range.toList) (quantifier : Quantifier)
    {body : List Char} (inside : Phrase (L.Heads (range :: scope)) body bs) :
    Phrase (L.Heads scope)
      (quantifier.word.toList ++ '(' :: (range.toList ++ ':' :: (body ++ [')'])))
      (range.toList :: bs) := by
  have word : ∀ c ∈ quantifier.word.toList, isNameChar c = true := by
    cases quantifier <;> decide
  rw [Lexicon.heads_cons] at inside
  exact .bind (phrase_of_name word) fits inside

theorem wording_related (hs : ∀ n ∈ scope, IsVariable n.toList) (negated : Bool) {path : Path}
    (segments : path.Spelled L scope) {collection : String} (name : L.name collection)
    (quantifier : Quantifier) {range : String} (fits : IsVariable range.toList)
    {body : List Group} {ranges : List String}
    (inside : Wordings (L.Heads (range :: scope)) (Group.texts body) ranges) :
    Wording (L.Heads scope) (Predicate.related negated path collection quantifier range body).text
      (range :: ranges) := by
  have around {cs : List Char} {bs : List (List Char)} (hp : Phrase (L.Heads scope) cs bs) :
      Phrase (L.Heads scope) ((negation negated).toList ++ (path.text.toList ++
        (collection.toList ++ '/' :: cs))) bs :=
    phrase_negation negated (phrase_path hs segments
      (.segment (L.identifier _ name).2 (fun _ => ⟨collection, Or.inl name, rfl⟩) (Or.inl rfl) hp))
  obtain ⟨bs, hb, hsub⟩ := inside.connected .and
  rw [Predicate.text, OData.conjunction?]
  by_cases empty : (Group.texts body).isEmpty
  · have word : ∀ c ∈ quantifier.word.toList, isNameChar c = true := by
      cases quantifier <;> decide
    refine wording_of_phrase ?_
    simpa [empty] using around (.parens (phrase_of_name word) phrase_nil phrase_nil)
  · refine ⟨range.toList :: bs, ?_, hsub.cons_cons _⟩
    simpa [empty, Connective.word] using around (phrase_bind fits quantifier hb)

mutual
/-- A predicate is a phrase. One on related rows whose body writes nothing binds no variable. -/
theorem Predicate.wording (columnless : ∀ n, ¬ L.column n) {scope : List String} {p : Predicate}
    (hs : ∀ n ∈ scope, IsVariable n.toList) (h : p.Spelled L scope) :
    Wording (L.Heads scope) p.text p.ranges := by
  match p with
  | .verbatim _ => cases h
  | .compare property comparison operand =>
    cases h with
    | compare hproperty hoperand =>
      have word : ∀ c ∈ comparison.word.toList, isNameChar c = true := by
        cases comparison <;> decide
      have value : Phrase (L.Heads scope) operand.text.toList [] := by
        cases operand with
        | literal text => exact phrase_literal hoperand
        | column name => exact absurd hoperand (columnless name)
      have hp := (phrase_property hs hproperty).spaced ((phrase_of_name word).spaced value)
      exact wording_of_phrase (by simpa [Predicate.text] using hp)
  | .isNull property negated =>
    cases h with
    | isNull hproperty =>
      have tail (word : String) (hw : ∀ c ∈ word.toList, isNameChar c = true) :
          Phrase (L.Heads scope)
            (property.text.toList ++ ' ' :: (word.toList ++ " null".toList)) [] := by
        have null : Phrase (L.Heads scope) "null".toList [] := phrase_of_name (by decide)
        exact (phrase_property hs hproperty).spaced ((phrase_of_name hw).spaced null)
      refine wording_of_phrase ?_
      cases negated with
      | false => simpa [Predicate.text] using tail "eq" (by decide)
      | true => simpa [Predicate.text] using tail "ne" (by decide)
  | .test negated test path column text =>
    cases h with
    | test segments name =>
      have word : ∀ c ∈ test.word.toList, isNameChar c = true := by
        cases test <;> decide
      have hp := phrase_negation negated (.parens (phrase_of_name word)
        (phrase_testArguments hs segments name text) phrase_nil)
      exact wording_of_phrase (by simpa [Predicate.text] using hp)
  | .call path function column arguments =>
    cases h with
    | call segments word name values =>
      have qualified : Phrase (L.Heads scope) ("Microsoft.Dynamics.CRM." ++ function).toList [] := by
        refine phrase_of_words ?_
        rw [String.toList_append]
        exact List.forall_mem_append.mpr ⟨by decide, word.avoids (by decide)⟩
      have hp := phrase_path hs segments
        (.parens qualified (phrase_callArguments column values) phrase_nil)
      exact wording_of_phrase (by simpa [Predicate.text] using hp)
  | .related negated path collection quantifier range body =>
    cases h with
    | related segments name fits inside =>
      have hs' : ∀ n ∈ range :: scope, IsVariable n.toList := List.forall_mem_cons.mpr ⟨fits, hs⟩
      rw [Predicate.ranges]
      exact wording_related hs negated segments name quantifier fits
        (Group.wordings columnless hs' inside)
/-- So is the text of a group that has one. -/
theorem Group.wording (columnless : ∀ n, ¬ L.column n) {scope : List String} {g : Group}
    (hs : ∀ n ∈ scope, IsVariable n.toList) (h : g.Spelled L scope) {text : String}
    (ht : g.text? = some text) : Wording (L.Heads scope) text g.ranges := by
  match g with
  | ⟨connective, predicates, groups⟩ =>
    cases h with
    | mk hp hg =>
      have items := (Predicate.wordings columnless hs hp).append (Group.wordings columnless hs hg)
      rw [Group.text?, parenthesized?] at ht
      split at ht
      · cases ht
      · cases ht
        rw [Group.ranges]
        simpa using (items.connected connective).parenthesized "" (by decide)
theorem Predicate.wordings (columnless : ∀ n, ¬ L.column n) {scope : List String}
    {ps : List Predicate} (hs : ∀ n ∈ scope, IsVariable n.toList)
    (h : ∀ p ∈ ps, p.Spelled L scope) :
    Wordings (L.Heads scope) (Predicate.texts ps) (Predicate.rangesAll ps) := by
  match ps with
  | [] => exact wordings_nil
  | p :: ps =>
    obtain ⟨hp, hrest⟩ := List.forall_mem_cons.mp h
    have rest := Predicate.wordings columnless hs hrest
    rw [Predicate.texts, Predicate.rangesAll]
    split
    · exact rest.mono (List.sublist_append_right _ _)
    · exact .cons (Predicate.wording columnless hs hp) rest
theorem Group.wordings (columnless : ∀ n, ¬ L.column n) {scope : List String} {gs : List Group}
    (hs : ∀ n ∈ scope, IsVariable n.toList) (h : ∀ g ∈ gs, g.Spelled L scope) :
    Wordings (L.Heads scope) (Group.texts gs) (Group.rangesAll gs) := by
  match gs with
  | [] => exact wordings_nil
  | g :: gs =>
    obtain ⟨hg, hrest⟩ := List.forall_mem_cons.mp h
    have rest := Group.wordings columnless hs hrest
    rw [Group.texts, Group.rangesAll]
    split
    · rename_i text ht
      exact .cons (Group.wording columnless hs hg ht) rest
    · exact rest.mono (List.sublist_append_right _ _)
end

/-- Options with a name of their own. -/
theorem wording_option {scope : List Char → Prop} (name : String)
    (hn : ∀ c ∈ name.toList, isNameChar c = true) {value : String} {ranges : List String}
    (h : Wording scope value ranges) : Wording scope ("$" ++ name ++ "=" ++ value) ranges := by
  obtain ⟨bs, hp, hs⟩ := h
  refine ⟨bs, ?_, hs⟩
  simpa using phrase_nil.beside (c := '$') (by decide) (phrase_assign name hn hp)

theorem wordings_option {scope : List Char → Prop} (name : String)
    (hn : ∀ c ∈ name.toList, isNameChar c = true) {items ranges : List String}
    (h : Wordings scope items ranges) : Wordings scope (option? name items).toList ranges := by
  unfold option?
  split
  · exact wordings_nil
  · exact (wording_option name hn (h.separated "," rfl (by decide))).singleton

theorem Group.wording_conjunction (columnless : ∀ n, ¬ L.column n) {gs : List Group}
    (h : ∀ g ∈ gs, g.Spelled L []) {text : String} (ht : Group.conjunction? gs = some text) :
    Wording (L.Heads []) text (Group.rangesAll gs) := by
  have each := Group.wordings columnless (List.forall_mem_nil _) h
  unfold Group.conjunction? OData.conjunction? at ht
  split at ht
  · cases ht
  · cases ht
    exact each.connected .and

theorem wordings_rowOptions (columnless : ∀ n, ¬ L.column n) {select expand ranges : List String}
    {filter : List Group} (hs : ∀ n ∈ select, L.name n) (he : Wordings (L.Heads []) expand ranges)
    (hf : ∀ g ∈ filter, g.Spelled L []) :
    Wordings (L.Heads []) (rowOptions select expand filter) (ranges ++ Group.rangesAll filter) := by
  have selected : Wordings (L.Heads []) (option? "select" select).toList [] :=
    wordings_option "select" (by decide)
      (wordings_of_phrases fun n hn => phrase_of_name (L.identifier n (hs n hn)).2)
  have filtered : Wordings (L.Heads []) (filterOption? filter).toList (Group.rangesAll filter) := by
    unfold filterOption?
    cases ht : Group.conjunction? filter with
    | none => exact wordings_nil
    | some text =>
      exact (wording_option "filter" (by decide)
        (Group.wording_conjunction columnless hf ht)).singleton
  exact (selected.append (wordings_option "expand" (by decide) he)).append filtered

theorem wording_withOptions {scope : List Char → Prop} {property : String}
    (hp : ∀ c ∈ property.toList, isNameChar c = true) {options ranges : List String}
    (h : Wordings scope options ranges) : Wording scope (withOptions property options) ranges := by
  unfold withOptions
  split
  · exact wording_of_phrase (phrase_of_name hp)
  · exact (h.separated ";" rfl (by decide)).parenthesized property hp

mutual
theorem Expand.wording (columnless : ∀ n, ¬ L.column n) {e : Expand} (h : e.Spelled L) :
    Wording (L.Heads []) e.text e.ranges := by
  match e with
  | ⟨property, select, expand, filter⟩ =>
    cases h with
    | mk name selected expanded filtered =>
      rw [Expand.text, Expand.ranges]
      exact wording_withOptions (L.identifier _ name).2
        (wordings_rowOptions columnless selected (Expand.wordings columnless expanded) filtered)
theorem Expand.wordings (columnless : ∀ n, ¬ L.column n) {es : List Expand}
    (h : ∀ e ∈ es, e.Spelled L) :
    Wordings (L.Heads []) (Expand.texts es) (Expand.rangesAll es) := by
  match es with
  | [] => exact wordings_nil
  | e :: es =>
    obtain ⟨he, hrest⟩ := List.forall_mem_cons.mp h
    rw [Expand.texts, Expand.rangesAll]
    exact .cons (Expand.wording columnless he) (Expand.wordings columnless hrest)
end

theorem phrase_aggregates {scope : List Char → Prop} (entitled : ∀ n, L.title n → IsIdentifier n)
    {text : String} (h : Aggregates L text) : Phrase scope text.toList [] := by
  obtain ⟨aggregate, property, title, rfl, hp, ht⟩ := h
  have name : Avoids ['\x27', '(', ')', '/', '%', ':'] property :=
    (L.identifier _ hp).avoids (by decide)
  have called : Avoids ['\x27', '(', ')', '/', '%', ':'] title := (entitled _ ht).avoids (by decide)
  have reduced (method : String) (hm : Avoids ['\x27', '(', ')', '/', '%', ':'] method) :
      Avoids ['\x27', '(', ')', '/', '%', ':'] (property ++ " with " ++ method ++ " as " ++ title) := by
    simp only [avoids_append]
    exact ⟨⟨⟨⟨name, by decide⟩, hm⟩, by decide⟩, called⟩
  apply phrase_of_words
  cases aggregate with
  | count => exact avoids_append.mpr ⟨by decide, called⟩
  | countColumn => exact reduced "countdistinct" (by decide)
  | sum => exact reduced "sum" (by decide)
  | avg => exact reduced "average" (by decide)
  | min => exact reduced "min" (by decide)
  | max => exact reduced "max" (by decide)

namespace Request

def relative (r : Request) : String :=
  if r.options.isEmpty then r.target.property
  else r.target.property ++ "?" ++ "&".intercalate r.options

theorem url_eq (r : Request) (base : String) : r.url base = trimBase base ++ "/" ++ r.relative := by
  unfold url relative
  dsimp only
  split
  · rfl
  · simp only [String.append_assoc]

theorem mem_trimBase {base : String} {c : Char} (h : c ∈ (trimBase base).toList) :
    c ∈ base.toList := by
  rw [trimBase, String.toList_ofList, List.mem_reverse] at h
  exact List.mem_reverse.mp ((List.dropWhile_sublist _).subset h)

theorem wording_summary (entitled : ∀ n, L.title n → IsIdentifier n) {r : Request}
    (h : r.Spelled L) : Wording (L.Heads []) r.summary [] := by
  have groups : Wording (L.Heads []) (",".intercalate r.groups) [] := by
    refine (wordings_of_phrases fun g hg => ?_).separated "," rfl (by decide)
    exact phrase_of_name (L.identifier _ (h.groups g hg)).2
  have aggregates : Wording (L.Heads []) ("aggregate(" ++ ",".intercalate r.aggregates ++ ")") [] := by
    refine Wording.parenthesized ?_ "aggregate" (by decide)
    refine (wordings_of_phrases fun a ha => ?_).separated "," rfl (by decide)
    exact phrase_aggregates entitled (h.aggregates a ha)
  unfold summary
  dsimp only
  split
  · exact aggregates
  · obtain ⟨bs, hg, hs⟩ := groups
    obtain ⟨bs', ha, hs'⟩ := aggregates
    cases List.sublist_nil.mp hs
    cases List.sublist_nil.mp hs'
    have around {cs : List Char} (hp : Phrase (L.Heads []) cs []) :
        Phrase (L.Heads []) ("groupby((".toList ++ ((",".intercalate r.groups).toList ++
          ')' :: (cs ++ [')']))) [] := by
      have word : Phrase (L.Heads []) "groupby".toList [] := phrase_of_name (by decide)
      simpa using Phrase.parens word (.parens phrase_nil hg hp) phrase_nil
    split
    · exact wording_of_phrase (by simpa using around phrase_nil)
    · have after := phrase_nil.beside (c := ',') (by decide) ha
      exact wording_of_phrase (by simpa using around after)

theorem wording_apply (columnless : ∀ n, ¬ L.column n)
    (entitled : ∀ n, L.title n → IsIdentifier n) {r : Request} (h : r.Spelled L) :
    Wording (L.Heads []) r.apply (Group.rangesAll r.target.filter) := by
  have summary := wording_summary entitled h
  unfold apply
  split
  · rename_i filter hf
    cases h.target with
    | mk _ _ _ filtered =>
      obtain ⟨bs, hp, hs⟩ := Group.wording_conjunction columnless filtered hf
      obtain ⟨bs', hp', hs'⟩ := summary
      cases List.sublist_nil.mp hs'
      have name : ∀ c ∈ ([] : List Char), isNameChar c = true :=
        List.forall_mem_nil _
      have word : Phrase (L.Heads []) "filter".toList [] := phrase_of_name (by decide)
      have hr : Phrase (L.Heads []) ([] ++ '/' :: r.summary.toList) [] :=
        .segment name (fun hv => absurd rfl hv.ne_nil) (Or.inl rfl) hp'
      refine ⟨bs, ?_, hs⟩
      simpa using Phrase.parens word hp hr
  · exact summary.mono (List.nil_sublist _)

theorem phrase_ordering {scope : List Char → Prop} {o : Ordering} (h : L.name o.property) :
    Phrase scope o.text.toList [] := by
  have asc : Phrase scope "asc".toList [] := phrase_of_name (by decide)
  have desc : Phrase scope "desc".toList [] := phrase_of_name (by decide)
  have name : Phrase scope o.property.toList [] := phrase_of_name (L.identifier _ h).2
  rw [Ordering.text, String.toList_append]
  split
  · exact name.spaced desc
  · exact name.spaced asc

theorem wording_top (r : Request) {scope : List Char → Prop} :
    Wordings scope r.topOption?.toList [] := by
  unfold topOption?
  cases r.top with
  | none => exact wordings_nil
  | some n =>
    refine (wording_option "top" (by decide) (wording_of_phrase (phrase_of_name ?_))).singleton
    intro c hc
    have hd : c ∈ Nat.toDigits 10 n.toNat := by simpa [Number.integerText, Number.digits] using hc
    simp [isNameChar, Char.isAlphanum, Nat.isDigit_of_mem_toDigits (by decide) (by decide) hd]

theorem wordings_options (columnless : ∀ n, ¬ L.column n)
    (entitled : ∀ n, L.title n → IsIdentifier n) {r : Request} (h : r.Spelled L) :
    Wordings (L.Heads []) r.options r.target.ranges := by
  cases ht : r.target with
  | mk property select expand filter =>
    have spelled := h.target
    rw [ht] at spelled
    rw [Expand.ranges]
    unfold options
    split
    · have applied := wording_option "apply" (by decide) (wording_apply columnless entitled h)
      rw [ht] at applied
      exact applied.singleton.mono (List.sublist_append_right _ _)
    · cases spelled with
      | mk _ selected expanded filtered =>
        have rows := wordings_rowOptions columnless selected
          (Expand.wordings columnless expanded) filtered
        have ordered : Wordings (L.Heads [])
            (option? "orderby" (r.orderBy.map Ordering.text)).toList [] := by
          refine wordings_option "orderby" (by decide) (wordings_of_phrases ?_)
          intro text hm
          obtain ⟨o, ho, rfl⟩ := List.mem_map.mp hm
          exact phrase_ordering (h.orderBy o ho)
        have all := (rows.append ordered).append (wording_top r)
        simpa [ht, Expand.options] using all

/-- What follows the base is a phrase. -/
theorem wording_relative (columnless : ∀ n, ¬ L.column n)
    (entitled : ∀ n, L.title n → IsIdentifier n) {r : Request} (h : r.Spelled L) :
    Wording (L.Heads []) r.relative r.target.ranges := by
  have name : ∀ c ∈ r.target.property.toList, isNameChar c = true := by
    cases h.target with
    | mk property _ _ _ => exact (L.identifier _ property).2
  unfold relative
  split
  · exact wording_of_phrase (phrase_of_name name)
  · obtain ⟨bs, hp, hs⟩ :=
      (wordings_options columnless entitled h).separated "&" rfl (by decide)
    refine ⟨bs, ?_, hs⟩
    simpa using (phrase_of_name name).beside (c := '?') (by decide) hp

end Request

end OData

end FetchOData
