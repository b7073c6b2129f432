import FetchOData.Proofs.Lexis

namespace FetchOData.Text

def IsVariable (w : List Char) : Prop :=
  ∃ c ds, w = c :: ds ∧ (c = 'x' ∨ c = 'o') ∧ ds ≠ [] ∧ ∀ d ∈ ds, d.isDigit = true

def binder (w : List Char) : List Char :=
  '(' :: (w ++ [':'])

def occurrences (pattern : List Char) : List Char → Nat
  | [] => 0
  | c :: cs => (if pattern <+: c :: cs then 1 else 0) + occurrences pattern cs

/-- What is between the two texts is a whole name that a path begins with. A slash follows it, or an
escape, as the slash is written in the arguments of functions. -/
structure HeadsPath (before after : List Char) : Prop where
  unquoted : before.count '\x27' % 2 = 0
  whole (c : Char) (hc : before.getLast? = some c) : isNameChar c = false
  separated : after.head? = some '/' ∨ after.head? = some '%'

def Enclosed (w before after : List Char) : Prop :=
  ∃ outer left right rest, before = outer ++ (binder w ++ left) ∧ after = right ++ ')' :: rest ∧
    outer.count '\x27' % 2 = 0 ∧ Closed (left ++ w ++ right)

/-- Every path that a variable heads stands in the parentheses that bind it, unless the variable is
in scope around the text. -/
def Scoped (scope : List Char → Prop) (cs : List Char) : Prop :=
  ∀ before w after, cs = before ++ w ++ after → IsVariable w → HeadsPath before after →
    scope w ∨ Enclosed w before after

def isBreak (c : Char) : Bool :=
  !isNameChar c && !(['\x27', '(', ')', ':', '/', '%'].contains c)

/-- A text and the variables that are bound in it. Those that head paths and are not bound there are
in scope. -/
inductive Phrase : (List Char → Prop) → List Char → List (List Char) → Prop where
  | plain (chars : ∀ c ∈ cs, c ∉ ['\x27', '(', ')', '/', '%'])
      (unbound : ∀ w, IsVariable w → ¬ w ++ [':'] <+: cs) : Phrase scope cs []
  | quoted (chars : ∀ c ∈ cs, c ∉ ['\x27', ':']) : Phrase scope ('\x27' :: cs ++ ['\x27']) []
  | segment (name : ∀ c ∈ w, isNameChar c = true) (known : IsVariable w → scope w)
      (separator : c = '/' ∨ c = '%') (rest : Phrase scope cs bs) : Phrase scope (w ++ c :: cs) bs
  | beside (first : Phrase scope cs bs) (separator : isBreak c = true)
      (second : Phrase scope ds bs') : Phrase scope (cs ++ c :: ds) (bs ++ bs')
  | parens (first : Phrase scope cs bs) (inside : Phrase scope ds bs')
      (rest : Phrase scope es bs'') :
      Phrase scope (cs ++ '(' :: (ds ++ ')' :: es)) (bs ++ (bs' ++ bs''))
  | bind (first : Phrase scope cs bs) (name : IsVariable v)
      (inside : Phrase (fun w => scope w ∨ w = v) ds bs') :
      Phrase scope (cs ++ '(' :: (v ++ ':' :: (ds ++ [')']))) (bs ++ v :: bs')

theorem isVariable_cons_iff {c : Char} {ds : List Char} :
    IsVariable (c :: ds) ↔ (c = 'x' ∨ c = 'o') ∧ ds ≠ [] ∧ ∀ d ∈ ds, d.isDigit = true := by
  constructor
  · rintro ⟨_, _, he, h⟩
    cases he
    exact h
  · intro h
    exact ⟨c, ds, rfl, h⟩

instance : DecidablePred IsVariable
  | [] => isFalse fun ⟨_, _, he, _⟩ => List.cons_ne_nil _ _ he.symm
  | _ :: _ => decidable_of_iff _ isVariable_cons_iff.symm

theorem IsVariable.ne_nil {w : List Char} (h : IsVariable w) : w ≠ [] := by
  obtain ⟨c, ds, rfl, _⟩ := h
  exact List.cons_ne_nil c ds

theorem IsVariable.isNameChar {w : List Char} (h : IsVariable w) :
    ∀ c ∈ w, isNameChar c = true := by
  obtain ⟨c, ds, rfl, hc, _, hds⟩ := h
  intro d hd
  rcases List.mem_cons.mp hd with rfl | hd
  · rcases hc with rfl | rfl <;> decide
  · simp [Text.isNameChar, Char.isAlphanum, hds d hd]

theorem isBreak_spec {c : Char} (h : isBreak c = true) :
    isNameChar c = false ∧ c ∉ ['\x27', '(', ')', ':', '/', '%'] := by
  simpa [isBreak] using h

theorem prefix_append_cons_iff {p xs ys : List Char} {c : Char} (hc : c ∉ p) :
    p <+: xs ++ c :: ys ↔ p <+: xs := by
  constructor
  · intro h
    rcases List.prefix_or_prefix_of_prefix h (List.prefix_append xs (c :: ys)) with hp | ⟨e, rfl⟩
    · exact hp
    · rcases List.prefix_cons_iff.mp ((List.prefix_append_right_inj xs).mp h) with rfl | ⟨_, rfl, _⟩
      · simp
      · simp at hc
  · intro h
    exact h.trans (List.prefix_append xs (c :: ys))

/-- Names are told apart by the first other character. -/
theorem name_prefix_iff {w v xs : List Char} {c : Char} (hw : c ∉ w) (hv : c ∉ v) :
    w ++ [c] <+: v ++ c :: xs ↔ w = v := by
  constructor
  · intro h
    induction w generalizing v with
    | nil =>
      cases v with
      | nil => rfl
      | cons d v =>
        simp only [List.nil_append, List.cons_append, List.cons_prefix_cons] at h
        exact absurd (h.1 ▸ List.mem_cons_self) hv
    | cons d w ih =>
      cases v with
      | nil =>
        simp only [List.cons_append, List.nil_append, List.cons_prefix_cons] at h
        exact absurd (h.1 ▸ List.mem_cons_self) hw
      | cons e v =>
        simp only [List.cons_append, List.cons_prefix_cons] at h
        rw [h.1, ih (fun hm => hw (List.mem_cons_of_mem _ hm))
          (fun hm => hv (List.mem_cons_of_mem _ hm)) h.2]
  · rintro rfl
    exact ⟨xs, by simp⟩

namespace Phrase

variable {scope : List Char → Prop} {cs : List Char} {bs : List (List Char)}

theorem closed (h : Phrase scope cs bs) : Closed cs := by
  induction h with
  | plain chars _ =>
    exact closed_of_plain fun c hc hm => chars c hc (by simp at hm ⊢; tauto)
  | quoted chars => exact closed_of_quoted fun hm => chars _ hm List.mem_cons_self
  | @segment _ _ c _ _ name _ separator _ ih =>
    have hc : Closed [c] := by
      rcases separator with rfl | rfl <;> exact closed_of_plain (by decide)
    simpa using ((closed_of_name name).append hc).append ih
  | @beside _ _ _ c _ _ first separator second ih₁ ih₂ =>
    have hc : Closed [c] := closed_of_plain fun d hd hm => by
      rw [List.mem_singleton.mp hd] at hm
      exact (isBreak_spec separator).2 (by simp at hm ⊢; tauto)
    simpa using (ih₁.append hc).append ih₂
  | parens _ _ _ ih₁ ih₂ ih₃ => simpa using (ih₁.append ih₂.parenthesized).append ih₃
  | bind _ name _ ih₁ ih₂ =>
    have colon : Closed [':'] := closed_of_plain (by decide)
    have hv := (closed_of_name name.isNameChar).append colon
    simpa using ih₁.append (hv.append ih₂).parenthesized

/-- No phrase begins as the rest of a binder does, so that a parenthesis before it binds nothing. -/
theorem unbound (h : Phrase scope cs bs) {w : List Char} (hw : IsVariable w) :
    ¬ w ++ [':'] <+: cs := by
  have avoid {c : Char} (hc : isNameChar c = false) (hne : c ≠ ':') : c ∉ w ++ [':'] := by
    simpa [not_mem_of_name hw.isNameChar hc] using hne
  induction h with
  | plain _ unbound => exact unbound w hw
  | quoted _ =>
    obtain ⟨c, ds, rfl, hc, _⟩ := hw
    rintro ⟨e, he⟩
    simp only [List.cons_append, List.cons.injEq] at he
    rcases hc with rfl | rfl <;> exact absurd he.1 (by decide)
  | @segment w' _ c _ _ name _ separator _ _ =>
    intro hp
    have hc : c ∉ w ++ [':'] := by
      rcases separator with rfl | rfl <;> exact avoid (by decide) (by decide)
    have hm : ':' ∈ w' := ((prefix_append_cons_iff hc).mp hp).subset (by simp)
    exact not_mem_of_name name (by decide) hm
  | beside _ separator _ ih _ =>
    obtain ⟨hn, hm⟩ := isBreak_spec separator
    rw [prefix_append_cons_iff (avoid hn fun h => hm (by simp [h]))]
    exact ih
  | parens _ _ _ ih _ _ =>
    rw [prefix_append_cons_iff (avoid (by decide) (by decide))]
    exact ih
  | bind _ _ _ ih _ =>
    rw [prefix_append_cons_iff (avoid (by decide) (by decide))]
    exact ih

end Phrase

theorem occurrences_of_not_mem {pattern cs : List Char} {c : Char} (hp : c ∈ pattern)
    (hc : c ∉ cs) : occurrences pattern cs = 0 := by
  induction cs with
  | nil => rfl
  | cons d cs ih =>
    rw [occurrences, if_neg fun h => hc (h.subset hp), ih fun h => hc (List.mem_cons_of_mem _ h)]

theorem occurrences_append_of_not_mem {c : Char} {p xs : List Char} (h : c ∉ xs) (ys : List Char) :
    occurrences (c :: p) (xs ++ ys) = occurrences (c :: p) ys := by
  induction xs with
  | nil => rfl
  | cons d xs ih =>
    obtain ⟨hd, hs⟩ := not_or.mp (List.mem_cons.not.mp h)
    have hp : ¬ c :: p <+: d :: (xs ++ ys) := fun hp => hd (List.cons_prefix_cons.mp hp).1
    rw [List.cons_append, occurrences, if_neg hp, Nat.zero_add, ih hs]

/-- A character that is not in the rest of a pattern keeps what stands before it apart. -/
theorem occurrences_append_cons {c d : Char} {p xs ys : List Char} (hd : d ∉ p) :
    occurrences (c :: p) (xs ++ d :: ys) =
      occurrences (c :: p) xs + occurrences (c :: p) (d :: ys) := by
  induction xs with
  | nil => simp [occurrences]
  | cons e xs ih =>
    have hp : c :: p <+: e :: (xs ++ d :: ys) ↔ c :: p <+: e :: xs := by
      rw [List.cons_prefix_cons, List.cons_prefix_cons, prefix_append_cons_iff hd]
    rw [List.cons_append, occurrences, occurrences, ih]
    simp only [hp, Nat.add_assoc]

theorem occurrences_binder_cons {w : List Char} {c : Char} (hc : c ≠ '(') (cs : List Char) :
    occurrences (binder w) (c :: cs) = occurrences (binder w) cs := by
  have ho : '(' ∉ [c] := by simpa using Ne.symm hc
  exact occurrences_append_of_not_mem ho cs

theorem occurrences_binder_append {w xs : List Char} (hx : '(' ∉ xs) (ys : List Char) :
    occurrences (binder w) (xs ++ ys) = occurrences (binder w) ys :=
  occurrences_append_of_not_mem hx ys

theorem occurrences_binder_append_cons {w xs ys : List Char} {c : Char} (hc : c ∉ w ++ [':']) :
    occurrences (binder w) (xs ++ c :: ys) =
      occurrences (binder w) xs + occurrences (binder w) (c :: ys) :=
  occurrences_append_cons hc

/-- The binders of a phrase stand in it, each as often as it is listed. -/
theorem Phrase.occurrences_eq {scope : List Char → Prop} {cs : List Char} {bs : List (List Char)}
    (h : Phrase scope cs bs) {w : List Char} (hw : IsVariable w) :
    occurrences (binder w) cs = bs.count w := by
  have avoid {c : Char} (hc : isNameChar c = false) (hne : c ≠ ':') : c ∉ w ++ [':'] := by
    simpa [not_mem_of_name hw.isNameChar hc] using hne
  have open_mem : '(' ∈ binder w := List.mem_cons_self
  have colon_mem : ':' ∈ binder w := by simp [binder]
  induction h with
  | plain chars _ =>
    rw [occurrences_of_not_mem open_mem fun hm => chars _ hm (by simp)]
    rfl
  | quoted chars =>
    rw [occurrences_of_not_mem colon_mem]
    · rfl
    · simpa using fun hm => chars _ hm (by simp)
  | segment name _ separator _ ih =>
    rw [occurrences_binder_append (not_mem_of_name name (by decide)),
      occurrences_binder_cons (by rcases separator with rfl | rfl <;> decide), ih]
  | beside _ separator _ ih₁ ih₂ =>
    obtain ⟨hn, hm⟩ := isBreak_spec separator
    rw [occurrences_binder_append_cons (avoid hn fun h => hm (by simp [h])),
      occurrences_binder_cons fun h => hm (by simp [h]), ih₁, ih₂, List.count_append]
  | @parens _ _ _ ds _ es _ _ inside _ ih₁ ih₂ ih₃ =>
    have hf : ¬ binder w <+: '(' :: (ds ++ ')' :: es) := by
      rw [binder, List.cons_prefix_cons, prefix_append_cons_iff (avoid (by decide) (by decide))]
      exact fun h => inside.unbound hw h.2
    rw [occurrences_binder_append_cons (avoid (by decide) (by decide)), occurrences, if_neg hf,
      occurrences_binder_append_cons (avoid (by decide) (by decide)),
      occurrences_binder_cons (by decide), ih₁, ih₂, ih₃, Nat.zero_add, List.count_append,
      List.count_append]
  | @bind _ _ _ v ds _ _ name _ ih₁ ih₂ =>
    have colon : ':' ∉ w := not_mem_of_name hw.isNameChar (by decide)
    have hi : binder w <+: '(' :: (v ++ ':' :: (ds ++ [')'])) ↔ v = w := by
      rw [binder, List.cons_prefix_cons,
        name_prefix_iff colon (not_mem_of_name name.isNameChar (by decide))]
      simp [eq_comm]
    rw [occurrences_binder_append_cons (avoid (by decide) (by decide)), occurrences,
      occurrences_binder_append (not_mem_of_name name.isNameChar (by decide)),
      occurrences_binder_cons (by decide),
      occurrences_binder_append_cons (avoid (by decide) (by decide)),
      occurrences_binder_cons (by decide), ih₁, ih₂, List.count_append, List.count_cons]
    simp only [hi, occurrences, beq_iff_eq]
    omega

/-- A name in a text stands on one side of every character that is not in it. -/
theorem name_beside {before w after xs ys : List Char} {c : Char} (hc : c ∉ w)
    (h : before ++ w ++ after = xs ++ c :: ys) :
    (∃ right, xs = before ++ w ++ right ∧ after = right ++ c :: ys) ∨
      ∃ left, before = xs ++ c :: left ∧ ys = left ++ w ++ after := by
  rcases List.append_eq_append_iff.mp h with ⟨as, hx, ha⟩ | ⟨as, hb, hy⟩
  · exact Or.inl ⟨as, hx, ha⟩
  · cases as with
    | nil => exact Or.inl ⟨[], by simpa using hb.symm, by simpa using hy.symm⟩
    | cons d as =>
      obtain ⟨rfl, rfl⟩ := List.cons.inj hy
      rcases List.append_eq_append_iff.mp hb with ⟨bs, hx, hw⟩ | ⟨bs, rfl, hd⟩
      · exact absurd (hw ▸ by simp) hc
      · cases bs with
        | nil => exact absurd (hd ▸ List.mem_cons_self : c ∈ [] ++ w) hc
        | cons e bs =>
          obtain ⟨rfl, rfl⟩ := List.cons.inj hd
          exact Or.inr ⟨bs, rfl, rfl⟩

theorem HeadsPath.of_append {xs left after : List Char} {c : Char}
    (h : HeadsPath (xs ++ c :: left) after) (hx : xs.count '\x27' % 2 = 0) (hc : c ≠ '\x27') :
    HeadsPath left after where
  unquoted := by
    have := h.unquoted
    rw [List.count_append, List.count_cons_of_ne hc] at this
    omega
  whole d hd := by
    refine h.whole d ?_
    rw [List.getLast?_append, List.getLast?_cons, hd]
    rfl
  separated := h.separated

/-- What follows a path's first name within a part of the text follows it in the text. -/
theorem HeadsPath.of_right {before right rest : List Char} {c : Char}
    (h : HeadsPath before (right ++ c :: rest)) (hc : c ≠ '/' ∧ c ≠ '%') :
    HeadsPath before right where
  unquoted := h.unquoted
  whole := h.whole
  separated := by
    cases right with
    | nil =>
      have := h.separated
      simp_all
    | cons d right => exact h.separated

theorem Enclosed.append_left {w left after : List Char} (h : Enclosed w left after)
    {xs : List Char} (hx : xs.count '\x27' % 2 = 0) : Enclosed w (xs ++ left) after := by
  obtain ⟨outer, inner, right, rest, rfl, rfl, ho, hc⟩ := h
  refine ⟨xs ++ outer, inner, right, rest, by simp, rfl, ?_, hc⟩
  rw [List.count_append]
  omega

theorem Enclosed.append_right {w before right : List Char} (h : Enclosed w before right)
    (ys : List Char) : Enclosed w before (right ++ ys) := by
  obtain ⟨outer, left, inner, rest, rfl, rfl, ho, hc⟩ := h
  exact ⟨outer, left, inner, rest ++ ys, rfl, by simp, ho, hc⟩

/-- Scoped texts may stand on both sides of a character that no path goes through. -/
theorem Scoped.beside {scope : List Char → Prop} {xs ys : List Char} {c : Char}
    (hx : Scoped scope xs) (hy : Scoped scope ys) (he : xs.count '\x27' % 2 = 0)
    (hn : isNameChar c = false) (hc : c ∉ ['\x27', '/', '%']) : Scoped scope (xs ++ c :: ys) := by
  simp only [List.mem_cons, List.not_mem_nil, or_false, not_or] at hc
  intro before w after h hw hp
  rcases name_beside (not_mem_of_name hw.isNameChar hn) h.symm with
    ⟨right, rfl, rfl⟩ | ⟨left, rfl, rfl⟩
  · exact (hx before w right rfl hw (hp.of_right hc.2)).imp_right fun h => h.append_right _
  · refine (hy left w after rfl hw (hp.of_append he hc.1)).imp_right fun h => ?_
    have hxc : (xs ++ [c]).count '\x27' % 2 = 0 := by
      simpa [List.count_append, List.count_cons_of_ne hc.1] using he
    simpa using h.append_left hxc

/-- No name stands between quotes. -/
theorem scoped_of_quoted {scope : List Char → Prop} {cs : List Char} (h : '\x27' ∉ cs) :
    Scoped scope ('\x27' :: cs ++ ['\x27']) := by
  intro before w after he hw hp
  have quote : '\x27' ∉ w := not_mem_of_name hw.isNameChar (by decide)
  rcases name_beside quote he.symm with ⟨right, hx, _⟩ | ⟨left, _, hy⟩
  · cases before with
    | nil =>
      obtain ⟨c, ds, rfl, _⟩ := hw
      exact absurd ((List.cons.inj hx).1 ▸ List.mem_cons_self) quote
    | cons d before =>
      obtain ⟨rfl, rfl⟩ := List.cons.inj hx
      have hb : '\x27' ∉ before := fun hm => h (by simp [hm])
      have := hp.unquoted
      rw [List.count_cons_self, List.count_eq_zero_of_not_mem hb] at this
      omega
  · simp [hw.ne_nil] at hy

/-- A segment in front heads a path only if it is in scope. -/
theorem Scoped.segment {scope : List Char → Prop} {v cs : List Char} {c : Char}
    (name : ∀ c ∈ v, isNameChar c = true) (known : IsVariable v → scope v)
    (separator : c = '/' ∨ c = '%') (h : Scoped scope cs) : Scoped scope (v ++ c :: cs) := by
  intro before w after he hw hp
  have hn : isNameChar c = false := by rcases separator with rfl | rfl <;> decide
  rcases name_beside (not_mem_of_name hw.isNameChar hn) he.symm with
    ⟨right, rfl, rfl⟩ | ⟨left, rfl, rfl⟩
  · -- The name is the segment itself: nothing of a segment ends a name.
    cases right with
    | cons d right =>
      have hd := name d (by simp)
      rcases hp.separated with hs | hs <;> cases hs <;> exact absurd hd (by decide)
    | nil =>
      cases hb : before.getLast? with
      | some d =>
        have := name d (by simp [List.mem_of_getLast? hb])
        rw [hp.whole d hb] at this
        cases this
      | none =>
        rw [List.getLast?_eq_none_iff.mp hb, List.nil_append, List.append_nil] at known
        exact Or.inl (known hw)
  · have hq : v.count '\x27' % 2 = 0 := (closed_of_name name).quotes
    have hc : c ≠ '\x27' := by rcases separator with rfl | rfl <;> decide
    refine (h left w after rfl hw (hp.of_append hq hc)).imp_right fun h => ?_
    have hvc : (v ++ [c]).count '\x27' % 2 = 0 := by
      simpa [List.count_append, List.count_cons_of_ne hc] using hq
    simpa using h.append_left hvc

/-- A binder at the end of a text brings its variable into scope, in its parentheses. -/
theorem Scoped.bind {scope : List Char → Prop} {cs v ds : List Char} (first : Scoped scope cs)
    (hc : Closed cs) (name : IsVariable v) (inside : Scoped (fun w => scope w ∨ w = v) ds)
    (hd : Closed ds) : Scoped scope (cs ++ '(' :: (v ++ ':' :: (ds ++ [')']))) := by
  intro before w after he hw hp
  rcases name_beside (not_mem_of_name hw.isNameChar (by decide)) he.symm with
    ⟨right, rfl, rfl⟩ | ⟨_, rfl, hl⟩
  · exact (first before w right rfl hw (hp.of_right (by decide))).imp_right
      fun h => h.append_right _
  have hp := hp.of_append hc.quotes (by decide)
  rcases name_beside (not_mem_of_name hw.isNameChar (by decide)) hl.symm with
    ⟨right, rfl, rfl⟩ | ⟨left, rfl, hr⟩
  · -- Within the binder the variable is followed by a colon, so it heads no path.
    cases right with
    | nil => rcases hp.separated with hs | hs <;> cases hs
    | cons d right =>
      have hd := name.isNameChar d (by simp)
      rcases hp.separated with hs | hs <;> cases hs <;> exact absurd hd (by decide)
  have hp := hp.of_append (closed_of_name name.isNameChar).quotes (by decide)
  rcases name_beside (not_mem_of_name hw.isNameChar (by decide)) hr.symm with
    ⟨right, rfl, rfl⟩ | ⟨_, _, hr⟩
  · have hq : (cs ++ binder v).count '\x27' % 2 = 0 := by
      have := hc.quotes
      have := (closed_of_name name.isNameChar).quotes
      simp [binder, List.count_append]
      omega
    rcases inside left w right rfl hw (hp.of_right (by decide)) with (hs | rfl) | hs
    · exact Or.inl hs
    · exact Or.inr ⟨cs, left, right, [], by simp [binder], rfl, hc.quotes, hd⟩
    · exact Or.inr (by simpa [binder] using (hs.append_left hq).append_right [')'])
  · simp [hw.ne_nil] at hr

/-- The variables that head paths in a phrase are bound around them, or in scope. -/
theorem Phrase.scoped {scope : List Char → Prop} {cs : List Char} {bs : List (List Char)}
    (h : Phrase scope cs bs) : Scoped scope cs := by
  induction h with
  | plain chars _ =>
    intro before w after he hw hp
    have ha : ∀ c, after.head? = some c → c ∉ ['\x27', '(', ')', '/', '%'] := fun c hc =>
      chars c (by rw [he]; exact List.mem_append_right _ (List.mem_of_mem_head? hc))
    rcases hp.separated with hs | hs <;> exact absurd (by simp) (ha _ hs)
  | quoted chars => exact scoped_of_quoted fun hm => chars _ hm List.mem_cons_self
  | segment name known separator _ ih => exact ih.segment name known separator
  | beside first separator _ ih₁ ih₂ =>
    obtain ⟨hn, hm⟩ := isBreak_spec separator
    exact ih₁.beside ih₂ first.closed.quotes hn fun h => hm (by simp at h ⊢; tauto)
  | parens first inside _ ih₁ ih₂ ih₃ =>
    exact ih₁.beside (ih₂.beside ih₃ inside.closed.quotes (by decide) (by decide))
      first.closed.quotes (by decide) (by decide)
  | bind first name inside ih₁ ih₂ => exact ih₁.bind first.closed name ih₂ inside.closed

/-- Items that are phrases make a phrase, with a separator that phrases may stand beside. -/
theorem Phrase.intercalate {scope : List Char → Prop} {separator : List Char}
    (hs : ∀ cs ds bs bs', Phrase scope cs bs → Phrase scope ds bs' →
      Phrase scope (cs ++ separator ++ ds) (bs ++ bs'))
    {items : List (List Char)} {bss : List (List (List Char))}
    (h : List.Forall₂ (Phrase scope) items bss) :
    Phrase scope (separator.intercalate items) bss.flatten := by
  induction h with
  | nil => exact .plain (by simp) fun w hw hp => by simpa using hp.subset
  | @cons item bs items bss hi hr ih =>
    cases hr with
    | nil => simpa using hi
    | cons =>
      rw [List.intercalate_cons_cons, List.flatten_cons]
      exact hs _ _ _ _ hi ih

end FetchOData.Text
