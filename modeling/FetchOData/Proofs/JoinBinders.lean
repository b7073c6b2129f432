import FetchOData.Proofs.Wording

namespace FetchOData

namespace Text

/-- A longer pattern stands in a text no more often. -/
theorem occurrences_cons_le (c : Char) {p : List Char} (hp : p ≠ []) (cs : List Char) :
    occurrences (c :: p) cs ≤ occurrences p cs := by
  have below (d : Char) (ds : List Char) : occurrences (c :: p) (d :: ds) ≤ occurrences p ds := by
    induction ds generalizing d with
    | nil => simp [occurrences, hp]
    | cons e ds ih =>
      have first : (if c :: p <+: d :: e :: ds then 1 else 0) ≤ if p <+: e :: ds then 1 else 0 := by
        split
        · rename_i h
          rw [if_pos (List.cons_prefix_cons.mp h).2]
        · exact Nat.zero_le _
      exact Nat.add_le_add first (ih e)
  cases cs with
  | nil => exact Nat.le_refl _
  | cons d ds =>
    have := below d ds
    rw [occurrences.eq_2 p]
    omega

theorem occurrences_pos {p cs : List Char} (hp : p ≠ []) (h : p <:+: cs) :
    0 < occurrences p cs := by
  obtain ⟨before, after, rfl⟩ := h
  induction before with
  | nil =>
    obtain ⟨c, p, rfl⟩ := List.exists_cons_of_ne_nil hp
    rw [List.nil_append, List.cons_append, occurrences,
      if_pos (List.cons_prefix_cons.mpr ⟨rfl, List.prefix_append p after⟩)]
    omega
  | cons c before ih =>
    rw [List.cons_append, List.cons_append, occurrences]
    omega

theorem IsIdentifier.slash_not_mem {n : String} (h : IsIdentifier n) : '/' ∉ n.toList :=
  not_mem_of_name h.2 (by decide)

end Text

open Text

def joinBinder (n : Nat) : List Char :=
  "/any".toList ++ binder ('o' :: Number.digits n)

theorem occurrences_joinBinder_le (n : Nat) (cs : List Char) :
    occurrences (joinBinder n) cs ≤
      occurrences (binder ('o' :: Number.digits n)) cs := by
  have longer (c : Char) {p : List Char} (hp : p ≠ []) := occurrences_cons_le c hp cs
  calc occurrences (joinBinder n) cs
      ≤ occurrences ("any".toList ++ binder ('o' :: Number.digits n)) cs :=
        longer '/' (by simp)
    _ ≤ occurrences ("ny".toList ++ binder ('o' :: Number.digits n)) cs :=
        longer 'a' (by simp)
    _ ≤ occurrences ("y".toList ++ binder ('o' :: Number.digits n)) cs :=
        longer 'n' (by simp)
    _ ≤ occurrences (binder ('o' :: Number.digits n)) cs :=
        longer 'y' (by simp [binder])

theorem not_mem_joinBinder {c : Char} (n : Nat) (h : c ∉ "/any(o:".toList)
    (hd : c.isDigit = false) : c ∉ joinBinder n := by
  have digits : c ∉ Number.digits n := by
    intro hm
    have hm : c ∈ Nat.toDigits 10 n := hm
    rw [Nat.isDigit_of_mem_toDigits (by decide) (by decide) hm] at hd
    cases hd
  simp only [String.reduceToList, List.mem_cons, List.not_mem_nil, or_false, not_or] at h
  simp [joinBinder, binder, digits, h]

theorem occurrences_joinBinder_of_not_mem {n : Nat} {cs : List Char} (h : '/' ∉ cs) :
    occurrences (joinBinder n) cs = 0 :=
  occurrences_of_not_mem List.mem_cons_self h

theorem occurrences_joinBinder_append {n : Nat} {xs : List Char} (h : '/' ∉ xs) (ys : List Char) :
    occurrences (joinBinder n) (xs ++ ys) = occurrences (joinBinder n) ys :=
  occurrences_append_of_not_mem h ys

theorem occurrences_joinBinder_append_cons {n : Nat} {c : Char} {xs : List Char}
    (h : c ∉ "/any(o:".toList) (hd : c.isDigit = false) (ys : List Char) :
    occurrences (joinBinder n) (xs ++ c :: ys) =
      occurrences (joinBinder n) xs + occurrences (joinBinder n) ys := by
  have apart := not_mem_joinBinder n h hd
  have slash : '/' ∉ [c] := by
    simp at h ⊢
    tauto
  refine (occurrences_append_cons fun hm => apart (List.mem_cons_of_mem _ hm)).trans ?_
  exact congrArg _ (occurrences_joinBinder_append slash ys)

/-- Items without a binder have none when commas stand between them. -/
theorem occurrences_joinBinder_intercalate {n : Nat} {items : List String}
    (h : ∀ item ∈ items, occurrences (joinBinder n) item.toList = 0) :
    occurrences (joinBinder n) (",".intercalate items).toList = 0 := by
  induction items with
  | nil => rfl
  | cons item items ih =>
    obtain ⟨first, others⟩ := List.forall_mem_cons.mp h
    cases items with
    | nil => simpa using first
    | cons second rest =>
      have text : (",".intercalate (item :: second :: rest)).toList =
          item.toList ++ ',' :: (",".intercalate (second :: rest)).toList := by
        rw [String.intercalate_cons_cons]
        simp
      rw [text, occurrences_joinBinder_append_cons (by decide) (by decide), first, ih others]

theorem Text.Wording.occurrences_le {scope : List Char → Prop} {text : String}
    {ranges : List String} (h : Wording scope text ranges) (n : Nat) :
    occurrences (joinBinder n) text.toList ≤
      (ranges.map String.toList).count ('o' :: Number.digits n) := by
  obtain ⟨bs, phrase, sub⟩ := h
  calc occurrences (joinBinder n) text.toList
      ≤ occurrences (binder ('o' :: Number.digits n)) text.toList := occurrences_joinBinder_le ..
    _ = bs.count ('o' :: Number.digits n) :=
        phrase.occurrences_eq (Compile.isVariable_numbered (Or.inr rfl) n)
    _ ≤ (ranges.map String.toList).count ('o' :: Number.digits n) := sub.count_le _

def identifiers : Lexicon where
  name := IsIdentifier
  column _ := False
  title := IsIdentifier
  identifier _ h := h
  lookup _ h := h.lookup
  entitled _ h := h

def unbinding : Lexicon where
  name := IsIdentifier
  column _ := False
  title a := ∀ n, occurrences (joinBinder n) a.toList = 0
  identifier _ h := h
  lookup _ h := h.lookup
  entitled _ h _ := occurrences_joinBinder_of_not_mem h.slash_not_mem

open OData in
theorem occurrences_aggregates {n : Nat} {text : String} (h : Aggregates unbinding text) :
    occurrences (joinBinder n) text.toList = 0 := by
  obtain ⟨aggregate, property, title, rfl, hp, ht⟩ := h
  have hp : '/' ∉ property.toList := IsIdentifier.slash_not_mem hp
  have behind (before : String) (hb : '/' ∉ before.toList) :
      occurrences (joinBinder n) (before ++ title).toList = 0 := by
    rw [String.toList_append, occurrences_joinBinder_append hb]
    exact ht n
  have ofColumn (word : String) (hw : '/' ∉ word.toList) :
      occurrences (joinBinder n) (property ++ " with " ++ word ++ " as " ++ title).toList = 0 :=
    behind _ (by simp [hp, hw])
  cases aggregate with
  | count => exact behind "$count as " (by decide)
  | countColumn => exact ofColumn "countdistinct" (by decide)
  | sum => exact ofColumn "sum" (by decide)
  | avg => exact ofColumn "average" (by decide)
  | min => exact ofColumn "min" (by decide)
  | max => exact ofColumn "max" (by decide)

theorem OData.conjunction?_of_ne_nil {items : List String} (h : items ≠ []) :
    conjunction? items = some (" and ".intercalate items) := by
  simp [conjunction?, h]

namespace OData.Request

theorem occurrences_summary {n : Nat} {r : Request} (h : r.Spelled unbinding) :
    occurrences (joinBinder n) r.summary.toList = 0 := by
  have groups : occurrences (joinBinder n) (",".intercalate r.groups).toList = 0 :=
    occurrences_joinBinder_intercalate fun g hg =>
      occurrences_joinBinder_of_not_mem (IsIdentifier.slash_not_mem (h.groups g hg))
  have aggregates : occurrences (joinBinder n) (",".intercalate r.aggregates).toList = 0 :=
    occurrences_joinBinder_intercalate fun a ha => occurrences_aggregates (h.aggregates a ha)
  have closing {xs ys : List Char} (hx : occurrences (joinBinder n) xs = 0)
      (hy : occurrences (joinBinder n) ys = 0) :
      occurrences (joinBinder n) (xs ++ ')' :: ys) = 0 := by
    rw [occurrences_joinBinder_append_cons (by decide) (by decide), hx, hy]
  have opening (word : String) (hw : '/' ∉ word.toList) {xs : List Char}
      (hx : occurrences (joinBinder n) xs = 0) :
      occurrences (joinBinder n) (word.toList ++ xs) = 0 :=
    (occurrences_joinBinder_append hw xs).trans hx
  unfold summary
  dsimp only
  split
  · have done : occurrences (joinBinder n) [] = 0 := rfl
    simpa using opening "aggregate(" (by decide) (closing aggregates done)
  · have done : occurrences (joinBinder n) [')'] = 0 :=
      occurrences_joinBinder_of_not_mem (by decide)
    split
    · simpa using opening "groupby((" (by decide) (closing groups done)
    · have inner := opening ",aggregate(" (by decide) (closing aggregates done)
      simpa using opening "groupby((" (by decide) (closing groups inner)

theorem relative_of_aggregate {r : Request} (h : r.isAggregate = true) :
    r.relative = r.target.property ++ "?" ++ ("$apply=" ++ r.apply) := by
  simp [relative, options, h]

/-- The binders of a summary are those of its filter. -/
theorem occurrences_apply {n : Nat} {r : Request} (h : r.Spelled unbinding) :
    occurrences (joinBinder n) r.apply.toList =
      ((Group.conjunction? r.target.filter).map fun text =>
        occurrences (joinBinder n) text.toList).getD 0 := by
  unfold apply
  cases Group.conjunction? r.target.filter with
  | none => exact occurrences_summary h
  | some text =>
    have apart : ("filter(" ++ text ++ ")/" ++ r.summary).toList =
        "filter(".toList ++ (text.toList ++ ')' :: '/' :: r.summary.toList) := by
      simp
    have other : ¬ joinBinder n <+: '/' :: r.summary.toList := by
      unfold summary
      dsimp only
      split
      · simp [joinBinder]
      · split <;> simp [joinBinder]
    rw [apart, occurrences_joinBinder_append (by decide),
      occurrences_joinBinder_append_cons (by decide) (by decide), occurrences, if_neg other,
      occurrences_summary h]
    rfl

/-- In a summary the filter alone has binders. -/
theorem occurrences_relative_le {r : Request} (aggregate : r.isAggregate = true)
    (spelled : r.Spelled unbinding) (n : Nat) :
    occurrences (joinBinder n) r.relative.toList ≤
      (r.target.ranges.map String.toList).count ('o' :: Number.digits n) := by
  cases spelled.target with
  | mk property _ _ filtered =>
    have front : '/' ∉ (r.target.property ++ "?" ++ "$apply=").toList := by
      simpa using IsIdentifier.slash_not_mem property
    rw [relative_of_aggregate aggregate, ← String.append_assoc, String.toList_append,
      occurrences_joinBinder_append front, occurrences_apply spelled]
    cases written : Group.conjunction? r.target.filter with
    | none => exact Nat.zero_le _
    | some text =>
      have ranges : r.target.ranges =
          Expand.rangesAll r.target.expand ++ Group.rangesAll r.target.filter := by
        cases r.target
        rw [Expand.ranges]
      have phrased := Group.wording_conjunction (fun _ => not_false) filtered written
      rw [ranges, List.map_append, List.count_append]
      exact (phrased.occurrences_le n).trans (Nat.le_add_left _ _)

/-- No binder begins in the base and ends behind it. -/
theorem occurrences_url {r : Request} (property : IsIdentifier r.target.property) (base : String)
    (n : Nat) :
    occurrences (joinBinder n) (r.url base).toList =
      occurrences (joinBinder n) (trimBase base).toList +
        occurrences (joinBinder n) r.relative.toList := by
  have slash : '/' ∉ "any".toList ++ binder ('o' :: Number.digits n) := by
    have digits := not_mem_of_name (Compile.isVariable_numbered (Or.inr rfl) n).isNameChar
      (by decide : isNameChar '/' = false)
    simpa [binder] using digits
  have apart : ¬ joinBinder n <+: '/' :: r.relative.toList := by
    intro h
    have h : "any(".toList <+: r.relative.toList :=
      List.IsPrefix.trans ⟨_, rfl⟩ (List.cons_prefix_cons.mp h).2
    have inside : "any(".toList <+: r.target.property.toList := by
      unfold relative at h
      split at h
      · exact h
      · have split : (r.target.property ++ "?" ++ "&".intercalate r.options).toList =
            r.target.property.toList ++ '?' :: ("&".intercalate r.options).toList := by
          simp
        rw [split] at h
        exact (prefix_append_cons_iff (by decide)).mp h
    exact not_mem_of_name property.2 (by decide) (inside.subset (by decide : '(' ∈ "any(".toList))
  have text : (r.url base).toList = (trimBase base).toList ++ '/' :: r.relative.toList := by
    rw [r.url_eq]
    simp
  have skipped : occurrences (joinBinder n) ('/' :: r.relative.toList) =
      occurrences (joinBinder n) r.relative.toList := by
    rw [occurrences, if_neg apart, Nat.zero_add]
  rw [text, ← skipped]
  exact occurrences_append_cons slash

/-- Where the conjunction of the items stands in what follows the base: as a filter option of rows,
or in front of a summary. -/
def FiltersBy (relative : String) (items : List String) : Prop :=
  ∃ resource options, relative = resource ++ "?" ++ "&".intercalate options ∧
    ("$filter=" ++ " and ".intercalate items ∈ options ∨
      ∃ summary, options = ["$apply=filter(" ++ " and ".intercalate items ++ ")/" ++ summary])

theorem filtersBy_relative {r : Request} (h : Group.texts r.target.filter ≠ []) :
    FiltersBy r.relative (Group.texts r.target.filter) := by
  have written : Group.conjunction? r.target.filter =
      some (" and ".intercalate (Group.texts r.target.filter)) :=
    conjunction?_of_ne_nil h
  have placed : "$filter=" ++ " and ".intercalate (Group.texts r.target.filter) ∈ r.options ∨
      ∃ summary, r.options = ["$apply=filter(" ++
        " and ".intercalate (Group.texts r.target.filter) ++ ")/" ++ summary] := by
    unfold options
    split
    · refine Or.inr ⟨r.summary, ?_⟩
      rw [apply, written]
      exact congrArg (List.cons · []) (String.toList_inj.mp (by simp))
    · refine Or.inl (List.mem_append_left _ (List.mem_append_left _ (List.mem_append_right _ ?_)))
      simp [filterOption?, written]
  have nonempty : r.options.isEmpty = false := by
    rcases placed with member | ⟨_, single⟩
    · exact List.isEmpty_eq_false_iff_exists_mem.mpr ⟨_, member⟩
    · simp [single]
  exact ⟨r.target.property, r.options, by simp [relative, nonempty], placed⟩

theorem FiltersBy.contains {relative : String} {items : List String} (h : FiltersBy relative items)
    {item : String} (hi : item ∈ items) : item.toList <:+: relative.toList := by
  obtain ⟨resource, options, rfl, placed⟩ := h
  have inside : ∃ option ∈ options,
      (" and ".intercalate items).toList <:+: option.toList := by
    rcases placed with member | ⟨summary, rfl⟩
    · exact ⟨_, member, "$filter=".toList, [], by simp⟩
    · refine ⟨_, List.mem_singleton_self _, "$apply=filter(".toList, (")/" ++ summary).toList, ?_⟩
      simp
  obtain ⟨option, member, inside⟩ := inside
  have whole := (infix_intercalate "&" member).trans
    (List.suffix_append (resource ++ "?").toList _).isInfix
  rw [String.toList_append]
  exact ((infix_intercalate " and " hi).trans inside).trans whole

end OData.Request

end FetchOData
