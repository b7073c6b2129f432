import FetchOData.Proofs.Wording

namespace FetchOData
open Text

namespace Text

def delimiters : List Char :=
  ['&', ';', '#', '?']

theorem Avoids.mono {banned others : List Char} {s : String} (h : Avoids others s)
    (hb : banned ⊆ others) : Avoids banned s :=
  fun c hc hm => h c hc (hb hm)

theorem avoids_of_name {s : String} (h : ∀ c ∈ s.toList, isNameChar c = true) :
    Avoids delimiters s :=
  apart_of_name h (by decide)

theorem avoids_encode (s : String) : Avoids delimiters (encode s) := by
  intro c hc hm
  have others : ∀ c ∈ delimiters, ¬ (isPlain c = true ∨ c = '+' ∨ c = '%') := by decide
  exact others c hm (mem_encode hc)

theorem avoids_quoted (s : String) : Avoids delimiters (quoted s) := by
  rw [quoted, avoids_append, avoids_append]
  exact ⟨⟨by decide, avoids_encode _⟩, by decide⟩

theorem avoids_literal {s : String} (h : Literal.IsWritten s) : Avoids delimiters s := by
  rcases h with ⟨text, rfl⟩ | h
  · exact avoids_quoted text
  · intro c hc hm
    have others : ∀ c ∈ delimiters, c ∉ Literal.bareChars := by decide
    exact others c hm (h c hc)

end Text

namespace OData
open Query (Quantifier)

variable {L : Lexicon} {scope : List String} {banned : List Char}

theorem avoids_path (hb : ∀ c ∈ banned, isNameChar c = false ∧ c ≠ '/')
    (hs : ∀ n ∈ scope, IsVariable n.toList) {path : Path} (h : path.Spelled L scope) :
    Avoids banned path.text := by
  induction path with
  | nil => exact List.forall_mem_nil _
  | cons segment rest ih =>
    obtain ⟨hsegment, hrest⟩ := List.forall_mem_cons.mp h
    rw [Path.text, avoids_append, avoids_append]
    refine ⟨⟨?_, ?_⟩, ih hrest⟩
    · intro c hc hm
      have := isNameChar_of_segment hs hsegment c hc
      simp [(hb c hm).1] at this
    · intro c hc hm
      exact (hb c hm).2 (List.mem_singleton.mp hc)

theorem avoids_property (hb : ∀ c ∈ banned, isNameChar c = false ∧ c ≠ '/')
    (hs : ∀ n ∈ scope, IsVariable n.toList) {p : Property} (h : p.Spelled L scope) :
    Avoids banned p.text := by
  have name : Avoids banned p.name := (L.identifier _ h.name).avoids fun c hc => (hb c hc).1
  have value : Avoids banned "/Value" := by
    intro c hc hm
    have chars : ∀ c ∈ "/Value".toList, isNameChar c = true ∨ c = '/' := by decide
    rcases chars c hc with h | h
    · simp [(hb c hm).1] at h
    · exact (hb c hm).2 h
  rw [Property.text, avoids_append, avoids_append]
  refine ⟨⟨avoids_path hb hs h.path, name⟩, ?_⟩
  split
  · exact value
  · exact List.forall_mem_nil _

theorem avoids_arguments {a : Arguments} (h : a.Spelled) : Avoids delimiters a.text := by
  cases a with
  | none => exact List.forall_mem_nil _
  | one value => exact avoids_append.mpr ⟨by decide, avoids_literal h⟩
  | two first second =>
    change Avoids delimiters (",Property1=" ++ first ++ ",Property2=" ++ second)
    simp only [avoids_append]
    exact ⟨⟨⟨by decide, avoids_literal h.1⟩, by decide⟩, avoids_literal h.2⟩
  | many values =>
    change Avoids delimiters (",PropertyValues=[" ++ ",".intercalate values ++ "]")
    simp only [avoids_append]
    refine ⟨⟨by decide, avoids_intercalate (by decide) ?_⟩, by decide⟩
    exact fun value hv => avoids_literal (h value hv)

theorem avoids_negation (negated : Bool) : Avoids delimiters (negation negated) := by
  cases negated <;> decide

theorem avoids_conjunction {items : List String} {text : String}
    (ht : OData.conjunction? items = some text) (hb : banned ⊆ delimiters)
    (h : ∀ item ∈ items, Avoids banned item) : Avoids banned text := by
  unfold OData.conjunction? at ht
  split at ht
  · cases ht
  · cases ht
    have separator : Avoids delimiters " and " := by decide
    exact avoids_intercalate (separator.mono hb) h

mutual
theorem Predicate.avoids (hb : banned ⊆ delimiters) (hc : ∀ n, L.column n → Avoids banned n)
    {scope : List String} {p : Predicate} (hs : ∀ n ∈ scope, IsVariable n.toList)
    (h : p.Spelled L scope) : Avoids banned p.text := by
  match p with
  | .verbatim _ => cases h
  | .compare property comparison operand =>
    cases h with
    | compare hproperty hoperand =>
      have left : Avoids delimiters (property.text ++ " " ++ comparison.word ++ " ") := by
        simp only [avoids_append]
        refine ⟨⟨⟨avoids_property (by decide) hs hproperty, by decide⟩, ?_⟩, by decide⟩
        cases comparison <;> decide
      rw [Predicate.text, avoids_append]
      refine ⟨left.mono hb, ?_⟩
      cases operand with
      | literal text => exact (avoids_literal hoperand).mono hb
      | column name => exact hc name hoperand
  | .isNull property negated =>
    cases h with
    | isNull hproperty =>
      refine Avoids.mono ?_ hb
      rw [Predicate.text, avoids_append]
      refine ⟨avoids_property (by decide) hs hproperty, ?_⟩
      split <;> decide
  | .test negated test path column text =>
    cases h with
    | test segments name =>
      refine Avoids.mono ?_ hb
      rw [Predicate.text]
      simp only [avoids_append]
      refine ⟨⟨⟨⟨⟨⟨avoids_negation negated, ?_⟩, by decide⟩, avoids_encode _⟩, by decide⟩,
        avoids_quoted text⟩, by decide⟩
      cases test <;> decide
  | .call path function column arguments =>
    cases h with
    | call segments word name values =>
      refine Avoids.mono ?_ hb
      rw [Predicate.text]
      simp only [avoids_append]
      exact ⟨⟨⟨⟨⟨⟨⟨avoids_path (by decide) hs segments, by decide⟩, avoids_of_name word.2⟩, by decide⟩,
        avoids_encode column⟩, by decide⟩, avoids_arguments values⟩, by decide⟩
  | .related negated path collection quantifier range body =>
    cases h with
    | related segments name fits inside =>
      have hs' : ∀ n ∈ range :: scope, IsVariable n.toList := List.forall_mem_cons.mpr ⟨fits, hs⟩
      have hbody := Group.avoids_texts hb hc hs' inside
      have left : Avoids delimiters
          (negation negated ++ path.text ++ collection ++ "/" ++ quantifier.word ++ "(") := by
        simp only [avoids_append]
        refine ⟨⟨⟨⟨⟨avoids_negation negated, avoids_path (by decide) hs segments⟩,
          avoids_of_name (L.identifier _ name).2⟩, by decide⟩, ?_⟩, by decide⟩
        cases quantifier <;> decide
      have bound : Avoids delimiters (range ++ ":") :=
        avoids_append.mpr ⟨avoids_of_name fits.isNameChar, by decide⟩
      have closing : Avoids delimiters ")" := by decide
      rw [Predicate.text, avoids_append, avoids_append]
      refine ⟨⟨left.mono hb, ?_⟩, closing.mono hb⟩
      split
      · rename_i joined hj
        exact avoids_append.mpr ⟨bound.mono hb, avoids_conjunction hj hb hbody⟩
      · exact List.forall_mem_nil _
theorem Predicate.avoids_texts (hb : banned ⊆ delimiters)
    (hc : ∀ n, L.column n → Avoids banned n) {scope : List String} {ps : List Predicate}
    (hs : ∀ n ∈ scope, IsVariable n.toList) (h : ∀ p ∈ ps, p.Spelled L scope) :
    ∀ text ∈ Predicate.texts ps, Avoids banned text := by
  match ps with
  | [] => exact List.forall_mem_nil _
  | p :: ps =>
    obtain ⟨hp, hrest⟩ := List.forall_mem_cons.mp h
    have rest := Predicate.avoids_texts hb hc hs hrest
    rw [Predicate.texts]
    split
    · exact rest
    · exact List.forall_mem_cons.mpr ⟨Predicate.avoids hb hc hs hp, rest⟩
theorem Group.avoids_texts (hb : banned ⊆ delimiters) (hc : ∀ n, L.column n → Avoids banned n)
    {scope : List String} {gs : List Group} (hs : ∀ n ∈ scope, IsVariable n.toList)
    (h : ∀ g ∈ gs, g.Spelled L scope) : ∀ text ∈ Group.texts gs, Avoids banned text := by
  match gs with
  | [] => exact List.forall_mem_nil _
  | ⟨connective, predicates, groups⟩ :: gs =>
    obtain ⟨hg, hrest⟩ := List.forall_mem_cons.mp h
    have rest := Group.avoids_texts hb hc hs hrest
    rw [Group.texts]
    split
    · rename_i text ht
      refine List.forall_mem_cons.mpr ⟨?_, rest⟩
      cases hg with
      | mk hp hg =>
        have items := List.forall_mem_append.mpr
          ⟨Predicate.avoids_texts hb hc hs hp, Group.avoids_texts hb hc hs hg⟩
        have signs : Avoids delimiters "(" ∧ Avoids delimiters ")" := by decide
        have separator : Avoids delimiters (" " ++ connective.word ++ " ") := by
          cases connective <;> decide
        rw [Group.text?, parenthesized?] at ht
        split at ht
        · cases ht
        · cases ht
          simp only [avoids_append]
          exact ⟨⟨signs.1.mono hb, avoids_intercalate (separator.mono hb) items⟩, signs.2.mono hb⟩
    · exact rest
end

end OData

end FetchOData
