import FetchOData.Proofs.LiteralText

namespace FetchOData.Guid

/-- The digits of the identifier, each of them in either case. -/
def DigitsOf (g : Guid) (ds : List Char) : Prop :=
  ds.mapM nibble? = some g.nibbles

inductive Spells (g : Guid) : List Char → Prop where
  | digits (h : g.DigitsOf ds) : Spells g ds
  | hyphenated (h : g.DigitsOf ds) : Spells g (writeGroups groups ds)
  | braced (h : g.DigitsOf ds) : Spells g ('\x7b' :: (writeGroups groups ds ++ ['\x7d']))
  | named (scheme : List Char) (hs : scheme.map Char.toLower = urn) (h : g.DigitsOf ds) :
      Spells g (scheme ++ writeGroups groups ds)

theorem DigitsOf.length {g : Guid} {ds : List Char} (h : g.DigitsOf ds) : ds.length = 32 := by
  rw [← length_mapM_nibble? h, g.length_nibbles]

theorem nibble?_nibbleChar (n : Fin 16) : nibble? (nibbleChar n) = some n := by
  have each : ∀ n : Fin 16, nibble? (nibbleChar n) = some n := by decide
  exact each n

theorem mapM_nibble?_nibbleChar (ns : List (Fin 16)) :
    (ns.map nibbleChar).mapM nibble? = some ns := by
  induction ns with
  | nil => rfl
  | cons n ns ih => simp [nibble?_nibbleChar, ih]

theorem spells_text (g : Guid) : Spells g g.text.toList := by
  rw [text, String.toList_ofList]
  exact .hyphenated (mapM_nibble?_nibbleChar g.nibbles)

theorem foldl_utf8Size (cs : List Char) (n : Nat) :
    cs.foldl (fun n c => n + c.utf8Size) n = n + byteSize cs := by
  induction cs generalizing n with
  | nil => rfl
  | cons c cs ih =>
    have first : byteSize (c :: cs) = 0 + c.utf8Size + byteSize cs := ih _
    rw [List.foldl_cons, ih, first]
    omega

theorem byteSize_append (cs ds : List Char) :
    byteSize (cs ++ ds) = byteSize cs + byteSize ds := by
  rw [byteSize, List.foldl_append, foldl_utf8Size]
  rfl

theorem byteSize_of_ascii {cs : List Char} (h : ∀ c ∈ cs, c.utf8Size = 1) :
    byteSize cs = cs.length := by
  induction cs with
  | nil => rfl
  | cons c cs ih =>
    have first : byteSize [c] = 1 := by
      rw [byteSize, List.foldl_cons, h c List.mem_cons_self]
      rfl
    rw [← List.singleton_append, byteSize_append, first, List.length_append,
      ih fun d hd => h d (List.mem_cons_of_mem _ hd)]
    rfl

theorem utf8Size_of_le {c d : Char} (h : c ≤ d) (ascii : d.val ≤ 127) : c.utf8Size = 1 :=
  Char.utf8Size_eq_one_iff.mpr (UInt32.le_trans h ascii)

theorem utf8Size_of_nibble? {c : Char} {n : Fin 16} (h : nibble? c = some n) : c.utf8Size = 1 := by
  unfold nibble? at h
  split at h
  · rename_i range
    exact utf8Size_of_le range.2 (by decide)
  · split at h
    · rename_i range
      exact utf8Size_of_le range.2 (by decide)
    · split at h
      · rename_i range
        exact utf8Size_of_le range.2 (by decide)
      · cases h

theorem utf8Size_of_toLower {c : Char} (h : c.toLower.utf8Size = 1) : c.utf8Size = 1 := by
  unfold Char.toLower at h
  split at h
  · rename_i upper
    exact utf8Size_of_le upper.2 (by decide)
  · exact h

theorem DigitsOf.ascii {g : Guid} {ds : List Char} (h : g.DigitsOf ds) :
    ∀ c ∈ ds, c.utf8Size = 1 := by
  have each (ds : List Char) (ns : List (Fin 16)) (h : ds.mapM nibble? = some ns) :
      ∀ c ∈ ds, c.utf8Size = 1 := by
    induction ds generalizing ns with
    | nil => exact nofun
    | cons d ds ih =>
      simp only [List.mapM_cons, Option.bind_eq_bind, Option.bind_eq_some_iff] at h
      obtain ⟨n, first, rest, others, _⟩ := h
      exact List.forall_mem_cons.mpr ⟨utf8Size_of_nibble? first, ih rest others⟩
  exact each ds g.nibbles h

theorem mapM_append_eq_some_iff {cs ds : List Char} {xs : List (Fin 16)} :
    (cs ++ ds).mapM nibble? = some xs ↔
      ∃ as bs, cs.mapM nibble? = some as ∧ ds.mapM nibble? = some bs ∧ xs = as ++ bs := by
  simp [List.mapM_append, Option.bind_eq_some_iff, eq_comm (a := xs)]

theorem writeGroups_cons {ns : List Nat} (h : ns ≠ []) (n : Nat) (ds : List Char) :
    writeGroups (n :: ns) ds = ds.take n ++ '-' :: writeGroups ns (ds.drop n) := by
  cases ns with
  | nil => exact absurd rfl h
  | cons m ns => rfl

/-- What is read in groups is what is written in them. -/
theorem grouped?_eq_some_iff {ns : List Nat} {cs : List Char} {xs : List (Fin 16)} :
    grouped? ns cs = some xs ↔
      ∃ ds, ds.mapM nibble? = some xs ∧ ds.length = ns.foldr (· + ·) 0 ∧
        cs = writeGroups ns ds := by
  fun_induction grouped? ns cs generalizing xs with
  | case1 cs empty =>
    constructor
    · rintro ⟨⟩
      exact ⟨[], rfl, rfl, List.isEmpty_iff.mp empty⟩
    · rintro ⟨ds, read, none_left, _⟩
      rw [List.eq_nil_of_length_eq_zero none_left] at read
      exact read
  | case2 cs some_char =>
    constructor
    · intro h
      cases h
    · rintro ⟨ds, _, _, rfl⟩
      exact absurd rfl some_char
  | case3 cs =>
    constructor
    · intro read
      exact ⟨cs, read, rfl, rfl⟩
    · rintro ⟨ds, read, _, split⟩
      rw [split]
      exact read
  | case4 n cs other =>
    constructor
    · intro h
      cases h
    · rintro ⟨ds, _, length, rfl⟩
      exact absurd length other
  | case5 n ns cs some_groups ih =>
    constructor
    · intro read
      simp only [Option.bind_eq_bind, Option.bind_eq_some_iff] at read
      obtain ⟨first, hf, read⟩ := read
      split at read
      · rename_i rest hd
        simp only [Option.bind_eq_some_iff, Option.pure_def, Option.some.injEq] at read
        obtain ⟨others, ho, rfl⟩ := read
        obtain ⟨ds, hds, length, rfl⟩ := (ih _).mp ho
        have full : (cs.take n).length = n := by
          have more := congrArg List.length hd
          simp only [List.length_drop, List.length_cons] at more
          rw [List.length_take]
          omega
        refine ⟨cs.take n ++ ds, mapM_append_eq_some_iff.mpr ⟨_, _, hf, hds, rfl⟩, ?_, ?_⟩
        · rw [List.length_append, full, length, List.foldr_cons]
        · rw [writeGroups_cons some_groups, List.take_left' full, List.drop_left' full, ← hd,
            List.take_append_drop]
      · cases read
    · rintro ⟨ds, read, length, rfl⟩
      have full : (ds.take n).length = n := by
        rw [List.foldr_cons] at length
        rw [List.length_take]
        omega
      rw [← List.take_append_drop n ds, mapM_append_eq_some_iff] at read
      obtain ⟨first, others, hf, ho, rfl⟩ := read
      have rest : grouped? ns (writeGroups ns (ds.drop n)) = some others := by
        refine (ih _).mpr ⟨ds.drop n, ho, ?_, rfl⟩
        rw [List.length_drop, length, List.foldr_cons]
        omega
      rw [writeGroups_cons some_groups, List.take_left' full, List.drop_left' full, hf]
      simp [rest]

theorem length_writeGroups {ds : List Char} (h : ds.length = 32) :
    (writeGroups groups ds).length = 36 := by
  simp only [writeGroups, groups, List.length_append, List.length_cons, List.length_take,
    List.length_drop, h]
  omega

theorem DigitsOf.byteSize_groups {g : Guid} {ds : List Char} (h : g.DigitsOf ds) :
    byteSize (writeGroups groups ds) = 36 := by
  have ascii : ∀ c ∈ writeGroups groups ds, c.utf8Size = 1 := by
    intro c hc
    rcases Literal.mem_writeGroups hc with digit | rfl
    · exact h.ascii c digit
    · decide
  rw [byteSize_of_ascii ascii, length_writeGroups h.length]

theorem byteSize_of_urn {scheme : List Char} (h : scheme.map Char.toLower = urn) :
    byteSize scheme = 9 := by
  have ascii : ∀ c ∈ urn, c.utf8Size = 1 := by decide
  have own : ∀ c ∈ scheme, c.utf8Size = 1 := by
    intro c hc
    apply utf8Size_of_toLower
    apply ascii
    rw [← h]
    exact List.mem_map_of_mem hc
  rw [byteSize_of_ascii own, ← List.length_map Char.toLower, h]
  decide

theorem ofGroups?_eq_some_iff {ns : List Nat} {hns : ns.foldr (· + ·) 0 = 32} {cs : List Char}
    {g : Guid} : ofGroups? ns hns cs = some g ↔ grouped? ns cs = some g.nibbles := by
  unfold ofGroups?
  split
  · rename_i nibbles found
    constructor
    · rintro ⟨⟩
      exact found
    · intro same
      rw [found] at same
      cases same
      rfl
  · rename_i found
    rw [found]
    simp

theorem unbraced?_eq_some_iff {cs inner : List Char} :
    unbraced? cs = some inner ↔ cs = '\x7b' :: (inner ++ ['\x7d']) := by
  constructor
  · intro h
    unfold unbraced? at h
    split at h
    · split at h
      · rename_i rest ends
        obtain ⟨body, rfl⟩ := List.getLast?_eq_some_iff.mp ends
        rw [List.dropLast_concat] at h
        cases h
        rfl
      · cases h
    · cases h
  · rintro rfl
    simp [unbraced?]

theorem startsWithUrn_append {scheme : List Char} (hs : scheme.map Char.toLower = urn)
    (cs : List Char) : startsWithUrn (scheme ++ cs) = true := by
  have length : scheme.length = urn.length := by rw [← hs, List.length_map]
  rw [startsWithUrn, List.take_left' length, hs, beq_self_eq_true]

/-- The wrapping of the groups is one of those that a spelling may have. -/
theorem spells_of_hyphenatedPart? {g : Guid} {ds cs : List Char} (h : g.DigitsOf ds)
    (part : hyphenatedPart? cs = some (writeGroups groups ds)) : Spells g cs := by
  unfold hyphenatedPart? at part
  split at part
  · cases part
    exact .hyphenated h
  · rw [unbraced?_eq_some_iff.mp part]
    exact .braced h
  · split at part
    · rename_i urned
      have split := List.take_append_drop urn.length cs
      rw [Option.some.inj part] at split
      rw [← split]
      exact .named _ (beq_iff_eq.mp urned) h
    · cases part
  · cases part

theorem DigitsOf.accept? {g : Guid} {ds cs : List Char} (h : g.DigitsOf ds)
    (part : hyphenatedPart? cs = some (writeGroups groups ds)) : accept? cs = some g := by
  simp only [Guid.accept?, part]
  exact ofGroups?_eq_some_iff.mpr (grouped?_eq_some_iff.mpr ⟨ds, h, h.length, rfl⟩)

/-- Exactly the spellings of an identifier are read as it. -/
theorem accept?_eq_some_iff {g : Guid} {cs : List Char} : accept? cs = some g ↔ Spells g cs := by
  constructor
  · intro h
    unfold accept? at h
    split at h
    · rename_i inner part
      obtain ⟨ds, digits, _, rfl⟩ := grouped?_eq_some_iff.mp (ofGroups?_eq_some_iff.mp h)
      exact spells_of_hyphenatedPart? digits part
    · obtain ⟨ds, digits, _, rfl⟩ := grouped?_eq_some_iff.mp (ofGroups?_eq_some_iff.mp h)
      exact .digits digits
  · intro h
    cases h with
    | digits h =>
      have size : byteSize cs = 32 := (byteSize_of_ascii h.ascii).trans h.length
      have bare : hyphenatedPart? cs = none := by simp only [hyphenatedPart?, size]
      simp only [accept?, bare]
      exact ofGroups?_eq_some_iff.mpr (grouped?_eq_some_iff.mpr ⟨cs, h, h.length, rfl⟩)
    | hyphenated h => exact h.accept? (by simp only [hyphenatedPart?, h.byteSize_groups])
    | @braced ds h =>
      have size : byteSize ('\x7b' :: (writeGroups groups ds ++ ['\x7d'])) = 38 := by
        rw [← List.singleton_append, byteSize_append, byteSize_append, h.byteSize_groups]
        decide
      apply h.accept?
      simp only [hyphenatedPart?, size]
      exact unbraced?_eq_some_iff.mpr rfl
    | @named ds scheme hs h =>
      have size : byteSize (scheme ++ writeGroups groups ds) = 45 := by
        rw [byteSize_append, byteSize_of_urn hs, h.byteSize_groups]
      have length : scheme.length = urn.length := by rw [← hs, List.length_map]
      apply h.accept?
      simp only [hyphenatedPart?, size, startsWithUrn_append hs, if_true, List.drop_left' length]

end FetchOData.Guid
