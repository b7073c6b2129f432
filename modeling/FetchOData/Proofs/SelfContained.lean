import FetchOData.Proofs.Delimiters

namespace FetchOData

namespace Text

def Unconnected (cs : List Char) : Prop :=
  ∀ w ∈ words cs, w ≠ "and".toList ∧ w ≠ "or".toList

def Opens (cs : List Char) : Prop :=
  ∃ c ds, cs = c :: ds ∧ c ≠ '('

theorem Opens.append {cs : List Char} (h : Opens cs) (ds : List Char) : Opens (cs ++ ds) := by
  obtain ⟨c, cs, rfl, hc⟩ := h
  exact ⟨c, cs ++ ds, rfl, hc⟩

theorem opens_of_name {cs : List Char} (hne : cs ≠ []) (h : ∀ c ∈ cs, isNameChar c = true) :
    Opens cs := by
  cases cs with
  | nil => exact absurd rfl hne
  | cons c cs =>
    refine ⟨c, cs, rfl, ?_⟩
    rintro rfl
    exact absurd (h '(' List.mem_cons_self) (by decide)

theorem IsIdentifier.opens {s : String} (h : IsIdentifier s) : Opens s.toList := by
  refine opens_of_name (fun he => h.1 ?_) h.2
  rw [← String.toList_inj, he]
  rfl

theorem selfContained_of {s : String} (opens : Opens s.toList) (closed : Closed s.toList)
    (unconnected : Unconnected s.toList) : SelfContained s where
  ne_empty := by
    rintro rfl
    obtain ⟨c, ds, he, _⟩ := opens
    cases he
  head_ne := by
    obtain ⟨c, ds, he, hc⟩ := opens
    rw [he]
    simpa using hc
  closed := closed
  words_ne := unconnected

theorem unconnected_of_word {cs : List Char} (h : (' ', true) ∉ leveled {} cs)
    (hand : cs ≠ "and".toList) (hor : cs ≠ "or".toList) : Unconnected cs := by
  intro w hw
  rw [words_of_not_mem h, List.mem_singleton] at hw
  exact hw ▸ ⟨hand, hor⟩

theorem Unconnected.spaced {cs ds : List Char} (hc : Closed cs) (h : Unconnected cs)
    (h' : Unconnected ds) : Unconnected (cs ++ ' ' :: ds) := by
  intro w hw
  rw [words_separated hc] at hw
  rcases List.mem_append.mp hw with hw | hw
  · exact h w hw
  · exact h' w hw

/-- A text that one character tells apart from both connectives. -/
theorem ne_connective {cs : List Char} {c : Char} (hc : c ∉ "andor".toList) (hm : c ∈ cs) :
    cs ≠ "and".toList ∧ cs ≠ "or".toList := by
  have apart : "andor".toList = "and".toList ++ "or".toList := by decide
  rw [apart, List.mem_append, not_or] at hc
  exact ⟨fun he => hc.1 (he ▸ hm), fun he => hc.2 (he ▸ hm)⟩

/-- A function with its arguments is one word, and no connective. -/
theorem unconnected_call {head inside : List Char}
    (plain : ∀ c ∈ head, c ∉ ['\x27', '(', ')', ' ']) (h : Closed inside) :
    Unconnected (head ++ '(' :: (inside ++ [')'])) := by
  have sealed : Sealed [' '] head := by
    refine sealed_of_plain fun c hc => ⟨fun hm => ?_, fun hm => ?_⟩ <;>
      exact plain c hc (by simp at hm ⊢; tauto)
  have open_mem : '(' ∈ head ++ '(' :: (inside ++ [')']) := by simp
  obtain ⟨hand, hor⟩ := ne_connective (by decide) open_mem
  exact unconnected_of_word ((sealed.call (by decide) h).surface ' ' List.mem_cons_self) hand hor

theorem unconnected_literal {s : String} (h : Literal.IsWritten s) : Unconnected s.toList := by
  rcases h with ⟨text, rfl⟩ | h
  · have quote : '\x27' ∈ (quoted text).toList := by simp [quoted]
    obtain ⟨hand, hor⟩ := ne_connective (by decide) quote
    refine unconnected_of_word (not_mem_leveled (fun hm => ?_) true) hand hor
    have hm : ' ' ∈ (encode (String.ofList (text.toList.flatMap doubleQuote))).toList := by
      simpa [quoted] using hm
    have := mem_encode hm
    revert this
    decide
  · refine unconnected_of_word (not_mem_leveled (fun hm => ?_) true) (fun he => ?_) fun he => ?_
    · exact absurd (h ' ' hm) (by decide)
    · exact absurd (h 'n' (he ▸ by decide)) (by decide)
    · exact absurd (h 'o' (he ▸ by decide)) (by decide)

theorem unconnected_of_name {cs : List Char} (h : ∀ c ∈ cs, isNameChar c = true)
    (hand : cs ≠ "and".toList) (hor : cs ≠ "or".toList) : Unconnected cs :=
  unconnected_of_word (not_mem_leveled (not_mem_of_name h (by decide)) true) hand hor

end Text

namespace OData
open Text
open Query (Quantifier)

/-- Names that are identifiers and cannot be taken for connectives. -/
def IsOrdinary (n : String) : Prop :=
  IsIdentifier n ∧ n ≠ "and" ∧ n ≠ "or"

instance (n : String) : Decidable (IsOrdinary n) :=
  inferInstanceAs (Decidable (_ ∧ _))

def ordinary : Lexicon where
  name := IsOrdinary
  column _ := False
  title _ := True
  identifier _ h := h.1
  lookup n h := by
    have differs (w : String) (hw : w.toList.head? ≠ some '_') : "_" ++ n ++ "_value" ≠ w := by
      rintro rfl
      simp at hw
    exact ⟨h.1.lookup, differs "and" (by decide), differs "or" (by decide)⟩
  entitled _ _ := trivial

variable {scope : List String}

theorem opens_path (hs : ∀ n ∈ scope, IsVariable n.toList) {path : Path}
    (h : path.Spelled ordinary scope) {cs : List Char} (hc : Opens cs) :
    Opens (path.text.toList ++ cs) := by
  cases path with
  | nil => exact hc
  | cons segment rest =>
    have hsegment := h segment List.mem_cons_self
    have first : Opens segment.toList := by
      rcases hsegment with hn | hn
      · exact hn.1.opens
      · exact opens_of_name (hs segment hn).ne_nil (hs segment hn).isNameChar
    have ho := first.append ('/' :: ((Path.text rest).toList ++ cs))
    simpa [Path.text] using ho

theorem opens_property (hs : ∀ n ∈ scope, IsVariable n.toList) {p : Property}
    (h : p.Spelled ordinary scope) : Opens p.text.toList := by
  have ho := opens_path hs h.path (h.name.1.opens.append (if p.managed then "/Value" else "").toList)
  simpa [Property.text] using ho

theorem unconnected_property (hs : ∀ n ∈ scope, IsVariable n.toList) {p : Property}
    (h : p.Spelled ordinary scope) : Unconnected p.text.toList := by
  have spaces : Avoids [' '] p.text := avoids_property (by decide) hs h
  have single : (' ', true) ∉ leveled {} p.text.toList :=
    not_mem_leveled (fun hm => spaces ' ' hm (by decide)) true
  have slash (hm : '/' ∈ p.text.toList) : Unconnected p.text.toList := by
    obtain ⟨hand, hor⟩ := ne_connective (by decide) hm
    exact unconnected_of_word single hand hor
  -- Only a property without a path and without a level below it is a name alone.
  obtain ⟨path, name, managed⟩ := p
  cases path with
  | cons segment rest =>
    apply slash
    simp [Property.text, Path.text]
  | nil =>
    cases managed with
    | true =>
      apply slash
      simp [Property.text]
    | false =>
      have hname : Property.text ⟨[], name, false⟩ = name := by simp [Property.text, Path.text]
      rw [hname]
      refine unconnected_of_name h.name.1.2 (fun he => h.name.2.1 ?_) fun he => h.name.2.2 ?_
      · exact String.toList_inj.mp he
      · exact String.toList_inj.mp he

theorem opens_negation {cs : List Char} (negated : Bool) (h : Opens cs) :
    Opens ((negation negated).toList ++ cs) := by
  cases negated with
  | false => exact h
  | true => exact ⟨'n', _, rfl, by decide⟩

theorem unconnected_negation {cs : List Char} (negated : Bool) (h : Unconnected cs) :
    Unconnected ((negation negated).toList ++ cs) := by
  cases negated with
  | false => exact h
  | true =>
    have word : Unconnected "not".toList :=
      unconnected_of_name (by decide) (by decide) (by decide)
    exact word.spaced (closed_of_plain (by decide)) h

def bodyText (range : String) (body : List Group) : String :=
  match OData.conjunction? (Group.texts body) with
  | some joined => range ++ ":" ++ joined
  | none => ""

theorem text_related (negated : Bool) (path : Path) (collection : String) (quantifier : Quantifier)
    (range : String) (body : List Group) :
    (Predicate.related negated path collection quantifier range body).text =
      negation negated ++ path.text ++ collection ++ "/" ++ quantifier.word ++ "(" ++
        bodyText range body ++ ")" := by
  rw [Predicate.text]
  rfl

theorem closed_bodyText {body : List Group} {range : String} (fits : IsVariable range.toList)
    (hs : ∀ n ∈ scope, IsVariable n.toList)
    (inside : ∀ g ∈ body, g.Spelled ordinary (range :: scope)) :
    Closed (bodyText range body).toList := by
  have hs' : ∀ n ∈ range :: scope, IsVariable n.toList := List.forall_mem_cons.mpr ⟨fits, hs⟩
  obtain ⟨bs, hp, _⟩ := (Group.wordings (fun _ => not_false) hs' inside).connected .and
  unfold bodyText OData.conjunction?
  by_cases empty : (Group.texts body).isEmpty
  · simpa [empty] using closed_of_plain (List.forall_mem_nil _)
  · have colon : Closed [':'] := closed_of_plain (by decide)
    have hc := ((closed_of_name fits.isNameChar).append colon).append hp.closed
    simpa [empty, Connective.word] using hc

def Surfaces (cs : List Char) : Prop :=
  Opens cs ∧ Unconnected cs

/-- What is said of a property comes after it. -/
theorem surfaces_property (hs : ∀ n ∈ scope, IsVariable n.toList) {p : Property}
    (h : p.Spelled ordinary scope) {tail : List Char} (ht : Unconnected tail) :
    Surfaces (p.text.toList ++ ' ' :: tail) :=
  ⟨(opens_property hs h).append _,
    (unconnected_property hs h).spaced (phrase_property hs h).closed ht⟩

/-- Whatever stands in the parentheses of a call, they keep it from the surface. -/
theorem surfaces_call (negated : Bool) {head inside : List Char} (opens : Opens head)
    (plain : ∀ c ∈ head, c ∉ ['\x27', '(', ')', ' ']) (h : Closed inside) :
    Surfaces ((negation negated).toList ++ (head ++ '(' :: (inside ++ [')']))) :=
  ⟨opens_negation negated (opens.append _), unconnected_negation negated (unconnected_call plain h)⟩

theorem Predicate.Spelled.surfaces (hs : ∀ n ∈ scope, IsVariable n.toList) {p : Predicate}
    (h : p.Spelled ordinary scope) : Surfaces p.text.toList := by
  cases h with
  | @compare _ property comparison operand hproperty hoperand =>
    have word : ∀ c ∈ comparison.word.toList, isNameChar c = true := by
      cases comparison <;> decide
    have symbol : Unconnected comparison.word.toList := by
      refine unconnected_of_name word ?_ ?_ <;> cases comparison <;> decide
    have value : Unconnected operand.text.toList := by
      cases operand with
      | literal text => exact unconnected_literal hoperand
      | column name => exact hoperand.elim
    have text : (Predicate.compare property comparison operand).text.toList =
        property.text.toList ++ ' ' :: (comparison.word.toList ++ ' ' :: operand.text.toList) := by
      simp [Predicate.text]
    rw [text]
    exact surfaces_property hs hproperty (symbol.spaced (closed_of_name word) value)
  | @isNull _ property negated hproperty =>
    have null : Unconnected "null".toList :=
      unconnected_of_name (by decide) (by decide) (by decide)
    have tail : Unconnected ((if negated then "ne" else "eq").toList ++ ' ' :: "null".toList) := by
      refine Unconnected.spaced (closed_of_name ?_) (unconnected_of_name ?_ ?_ ?_) null <;>
        cases negated <;> decide
    have text : (Predicate.isNull property negated).text.toList =
        property.text.toList ++ ' ' ::
          ((if negated then "ne" else "eq").toList ++ ' ' :: "null".toList) := by
      cases negated <;> simp [Predicate.text]
    rw [text]
    exact surfaces_property hs hproperty tail
  | @test _ path column negated test text segments name =>
    have word : ∀ c ∈ test.word.toList, c ∉ ['\x27', '(', ')', ' '] := by
      cases test <;> decide
    have opens : Opens test.word.toList := by
      cases test <;> exact ⟨_, _, rfl, by decide⟩
    have text : (Predicate.test negated test path column text).text.toList =
        (negation negated).toList ++ (test.word.toList ++ '(' ::
          (((encode (path.text ++ column)).toList ++ ',' :: ' ' :: (quoted text).toList) ++ [')'])) := by
      simp [Predicate.text]
    rw [text]
    exact surfaces_call negated opens word (phrase_testArguments hs segments name _).closed
  | @call _ path function column arguments segments word name values =>
    have chars : Avoids ['\x27', '(', ')', ' '] (path.text ++ "Microsoft.Dynamics.CRM." ++ function) := by
      rw [avoids_append, avoids_append]
      exact ⟨⟨avoids_path (by decide) hs segments, by decide⟩, word.avoids (by decide)⟩
    have opens : Opens (path.text ++ "Microsoft.Dynamics.CRM." ++ function).toList := by
      rw [String.toList_append, String.toList_append]
      exact (opens_path hs segments ⟨'M', _, rfl, by decide⟩).append _
    have inside : Phrase (ordinary.Heads scope) _ [] := phrase_callArguments column values
    have text : (Predicate.call path function column arguments).text.toList =
        (negation false).toList ++ ((path.text ++ "Microsoft.Dynamics.CRM." ++ function).toList ++
          '(' :: (("PropertyName=\x27".toList ++ (encode column).toList ++
            '\x27' :: arguments.text.toList) ++ [')'])) := by
      simp [Predicate.text, negation]
    rw [text]
    exact surfaces_call false opens chars inside.closed
  | @related _ path collection body negated quantifier range segments name fits inside =>
    have chars : Avoids ['\x27', '(', ')', ' '] (path.text ++ collection ++ "/" ++ quantifier.word) := by
      simp only [avoids_append]
      refine ⟨⟨⟨avoids_path (by decide) hs segments, name.1.avoids (by decide)⟩, by decide⟩, ?_⟩
      cases quantifier <;> decide
    have opens : Opens (path.text ++ collection ++ "/" ++ quantifier.word).toList := by
      simp only [String.toList_append]
      exact ((opens_path hs segments name.1.opens).append _).append _
    have text : (Predicate.related negated path collection quantifier range body).text.toList =
        (negation negated).toList ++ ((path.text ++ collection ++ "/" ++ quantifier.word).toList ++ '(' ::
          ((bodyText range body).toList ++ [')'])) := by
      simp [text_related]
    rw [text]
    exact surfaces_call negated opens chars (closed_bodyText fits hs inside)

theorem Predicate.Spelled.selfContained (hs : ∀ n ∈ scope, IsVariable n.toList) {p : Predicate}
    (h : p.Spelled ordinary scope) : SelfContained p.text := by
  obtain ⟨opens, unconnected⟩ := h.surfaces hs
  obtain ⟨bs, hp, _⟩ := Predicate.wording (fun _ => not_false) hs h
  exact selfContained_of opens hp.closed unconnected

end OData

namespace Compile
open Query OData Text

/-- Against a schema with ordinary names, every condition that compares with no column, and every
condition on related rows with only such conditions in it, is written as a text that keeps to itself:
not empty, not beginning with a parenthesis, its quotes and parentheses closed, no connective on its
surface, and none of the characters that take a URL apart. -/
theorem compiled_selfContained {t : Snapshot} {root : Query.Entity} {site : Site}
    {v v' : Variables} (named : t.Named IsOrdinary)
    (path : ∀ segment ∈ site.path, IsOrdinary segment) :
    (∀ c p, c.comparedColumn? = none → Gives t (condition root site c) v p v' →
      SelfContained p.text ∧ Avoids ['&', ';', '#', '?'] p.text) ∧
    ∀ links ps, (∀ link ∈ links, link.Each fun c => c.comparedColumn? = none) →
      Gives t (relatedPredicates root site links) v ps v' →
        ∀ p ∈ ps, SelfContained p.text ∧ Avoids ['&', ';', '#', '?'] p.text := by
  have bare : ∀ n ∈ ([] : List String), IsVariable n.toList :=
    List.forall_mem_nil _
  have segments : site.path.Spelled ordinary [] := fun segment hs => Or.inl (path segment hs)
  have text {p : Predicate} (h : p.Spelled ordinary []) :
      SelfContained p.text ∧ Avoids ['&', ';', '#', '?'] p.text :=
    ⟨h.selfContained bare, Predicate.avoids (List.Subset.refl delimiters) (fun _ => False.elim) bare h⟩
  constructor
  · intro c p hc h
    refine text (Renders.spelled named segments ?_ (gives_condition.mp h).1)
    intro n hn
    rw [hc] at hn
    cases hn
  · intro links ps hc h p hp
    refine text (RelatedOf.spelled named segments (fun link hl => ?_) (relatedOf_of_gives h) p hp)
    refine (hc link hl).mono fun c hn n hm => ?_
    rw [hn] at hm
    cases hm

def strangeName : Condition :=
  { column := "name", operator := .like, value := some "%a' or (b&c;d#e?" }

def noStrangeContact : Link :=
  { join := { entity := "contact", fromColumn := "parentcustomerid", toColumn := "accountid",
              kind := .related .any true },
    filters := [{ conditions := [
      { column := "firstname", operator := .eq, value := some "a' or (b&c;d#e?" }] }] }

/-- What a strange name and the link with it are written as, and that both keep to themselves. -/
theorem compiled_selfContained_strangeName :
    ∃ p q, Gives Catalog.sample.snapshot (condition { name := "account" } ⟨"account", []⟩
        strangeName) {} p {} ∧ p.text = "endswith(name, 'a%27%27+or+(b%26c%3bd%23e%3f')" ∧
      Gives Catalog.sample.snapshot (relatedPredicates { name := "account" } ⟨"account", []⟩
        [noStrangeContact]) {} [q] ⟨1, 0⟩ ∧
      q.text = "not contact_customer_accounts/any(" ++
        "x1:(x1/firstname ne 'a%27%27+or+(b%26c%3bd%23e%3f'))" ∧
      (SelfContained p.text ∧ Avoids ['&', ';', '#', '?'] p.text) ∧
      SelfContained q.text ∧ Avoids ['&', ';', '#', '?'] q.text := by
  have named : Catalog.sample.snapshot.Named IsOrdinary :=
    Catalog.named_snapshot (by decide +kernel)
  have h : Gives Catalog.sample.snapshot (condition { name := "account" } ⟨"account", []⟩
      strangeName) {} (.test false .endsWith [] "name" "a' or (b&c;d#e?") {} := by
    with_unfolding_all rfl
  have h' : Gives Catalog.sample.snapshot (relatedPredicates { name := "account" } ⟨"account", []⟩
      [noStrangeContact]) {} [.related true [] "contact_customer_accounts" .any "x1"
        [⟨.or, [.compare ⟨["x1"], "firstname", false⟩ .ne
          (.literal "'a%27%27+or+(b%26c%3bd%23e%3f'")], []⟩]] ⟨1, 0⟩ := by
    with_unfolding_all rfl
  have bare : ∀ segment ∈ ([] : Path), IsOrdinary segment :=
    List.forall_mem_nil _
  have each : ∀ link ∈ [noStrangeContact], link.Each fun c => c.comparedColumn? = none := by
    refine List.forall_mem_singleton.mpr (.mk (List.forall_mem_singleton.mpr (.mk ?_ ?_ ?_)) ?_)
    · exact List.forall_mem_singleton.mpr rfl
    all_goals exact List.forall_mem_nil _
  refine ⟨_, _, h, by decide +kernel, h', by decide +kernel, ?_, ?_⟩
  · exact (compiled_selfContained named bare).1 _ _ rfl h
  · exact (compiled_selfContained named bare).2 _ _ each h' _ List.mem_cons_self

end Compile

end FetchOData
