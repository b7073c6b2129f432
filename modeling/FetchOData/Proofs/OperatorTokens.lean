import FetchOData.Proofs.ReadBack

namespace FetchOData.Query.Operator
open Json

/-- The texts that one comes to from `s` by inserting and deleting hyphens. -/
inductive UpToHyphens (s : String) : String → Prop where
  | same : UpToHyphens s s
  | insert (a b : String) (h : UpToHyphens s (a ++ b)) : UpToHyphens s (a ++ "-" ++ b)
  | delete (a b : String) (h : UpToHyphens s (a ++ "-" ++ b)) : UpToHyphens s (a ++ b)

theorem compact_append (a b : String) : compact (a ++ b) = compact a ++ compact b := by
  simp [compact]

theorem compact_hyphen (a b : String) : compact (a ++ "-" ++ b) = compact (a ++ b) := by
  have hyphen : compact "-" = [] := by decide
  rw [compact_append, compact_append, hyphen, List.append_nil, compact_append]

theorem UpToHyphens.compact_eq {s t : String} (h : UpToHyphens s t) : compact t = compact s := by
  induction h with
  | same => rfl
  | insert a b _ ih => rw [compact_hyphen, ih]
  | delete a b _ ih => rw [← compact_hyphen, ih]

/-- Only what is left without the hyphens counts. -/
theorem ofToken?_congr {s t : String} (h : compact s = compact t) : ofToken? s = ofToken? t := by
  unfold ofToken?
  rw [h]

theorem compact_of_ofToken? {s : String} {op : Operator} (h : ofToken? s = some op) :
    compact s = compact op.token := by
  unfold ofToken? at h
  have same := List.find?_some h
  exact (beq_iff_eq.mp same).symm

theorem ofToken?_eq_some_iff {s : String} {op : Operator} :
    ofToken? s = some op ↔ compact s = compact op.token := by
  refine ⟨compact_of_ofToken?, ?_⟩
  intro same
  rw [ofToken?_congr same, ofToken?_token]

theorem compact_token_inj {op op' : Operator} (h : compact op.token = compact op'.token) :
    op = op' := by
  have read := ofToken?_congr h
  rw [ofToken?_token, ofToken?_token] at read
  exact Option.some.inj read

theorem ofJson_str_of_none {s : String} (h : ofToken? s = none) :
    ofJson (.str s) = .error (.unsupported (.unknownOperator s)) := by
  simp only [ofJson, Json.string, ok_bind, h]
  rfl

theorem ofJson_str_of_some {s : String} {op : Operator} (h : ofToken? s = some op) :
    ofJson (.str s) = .ok op := by
  simp only [ofJson, Json.string, ok_bind, h]
  rfl

/-- A text is read as the operator whose token it is up to hyphens, of which there is at most one,
and every other text is refused and named in the fault as it stands. -/
theorem read_exactly_up_to_hyphens :
    (∀ (s : String) (op : Operator), ofToken? s = some op ↔ compact s = compact op.token) ∧
      (∀ op op' : Operator, compact op.token = compact op'.token → op = op') ∧
      (∀ op : Operator, ofJson (.str op.token) = .ok op) ∧
      (∀ s : String, (∃ op : Operator, compact s = compact op.token ∧ ofJson (.str s) = .ok op) ∨
        (∀ op : Operator, compact s ≠ compact op.token) ∧
          ofJson (.str s) = .error (.unsupported (.unknownOperator s))) ∧
      ∀ s t : String, UpToHyphens s t →
        (∃ op : Operator, ofJson (.str s) = .ok op ∧ ofJson (.str t) = .ok op) ∨
          ofJson (.str s) = .error (.unsupported (.unknownOperator s)) ∧
            ofJson (.str t) = .error (.unsupported (.unknownOperator t)) := by
  refine ⟨fun _ _ => ofToken?_eq_some_iff, fun _ _ => compact_token_inj,
    fun op => ofJson_str_of_some op.ofToken?_token, ?_, ?_⟩
  · intro s
    cases read : ofToken? s with
    | some op => exact Or.inl ⟨op, compact_of_ofToken? read, ofJson_str_of_some read⟩
    | none =>
      refine Or.inr ⟨?_, ofJson_str_of_none read⟩
      intro op same
      rw [ofToken?_eq_some_iff.mpr same] at read
      cases read
  · intro s t moved
    have again : ofToken? t = ofToken? s := ofToken?_congr moved.compact_eq
    cases read : ofToken? s with
    | some op =>
      rw [read] at again
      exact Or.inl ⟨op, ofJson_str_of_some read, ofJson_str_of_some again⟩
    | none =>
      rw [read] at again
      exact Or.inr ⟨ofJson_str_of_none read, ofJson_str_of_none again⟩

/-- A hyphen before the token and one less inside it. -/
theorem read_exactly_up_to_hyphens_notBegin :
    UpToHyphens "not-begin-with" "-notbegin-with" ∧
      ∃ op : Operator, ofJson (.str "not-begin-with") = .ok op ∧
        ofJson (.str "-notbegin-with") = .ok op := by
  have moved : UpToHyphens "not-begin-with" "-notbegin-with" :=
    .insert "" "notbegin-with" (.delete "not" "begin-with" .same)
  obtain ⟨_, _, token, _, outcomes⟩ := read_exactly_up_to_hyphens
  refine ⟨moved, ?_⟩
  rcases outcomes _ _ moved with read | ⟨refused, _⟩
  · exact read
  · cases (token notBeginWith).symm.trans refused

end FetchOData.Query.Operator
