import FetchOData.Proofs.Inversion

namespace FetchOData

theorem rel_getElem?_of_forall₂ {R : α → β → Prop} {xs : List α} {ys : List β}
    (h : List.Forall₂ R xs ys) (i : Nat) : Option.Rel R xs[i]? ys[i]? := by
  induction h generalizing i with
  | nil => exact .none
  | cons head _ ih =>
    cases i with
    | zero => exact .some head
    | succ i => exact ih i

theorem rel_imp {R S : α → β → Prop} (h : ∀ a b, R a b → S a b) {x : Option α} {y : Option β}
    (rel : Option.Rel R x y) : Option.Rel S x y := by
  cases rel with
  | none => exact .none
  | some inner => exact .some (h _ _ inner)

theorem exists_forall₂_iff {R : α → β → Prop} {xs : List α} :
    (∃ ys, List.Forall₂ R xs ys) ↔ ∀ x ∈ xs, ∃ y, R x y := by
  induction xs with
  | nil => simp
  | cons x xs ih =>
    rw [List.forall_mem_cons, ← ih]
    constructor
    · rintro ⟨_, h⟩
      cases h with
      | cons head rest => exact ⟨⟨_, head⟩, _, rest⟩
    · rintro ⟨⟨y, head⟩, ys, rest⟩
      exact ⟨y :: ys, .cons head rest⟩

namespace Query

/-- The filter at a position: the path says, level by level, which of the nested filters to take. -/
def Filter.at? (f : Filter) : List Nat → Option Filter
  | [] => some f
  | i :: path => f.filters[i]?.bind fun nested => nested.at? path

/-- Filters that differ as a filter and its inverse do: in the connective, in the operators and in
the kinds of the links. What is in the links is the same, and as many filters are nested in them. -/
structure Filter.Opposite (f g : Filter) : Prop where
  connective : g.connective = f.connective.flip
  conditions : List.Forall₂
    (fun c d => ∃ o, c.operator.inverse? = some o ∧ d = { c with operator := o })
    f.conditions g.conditions
  links : List.Forall₂ (fun l m => ∃ kind, l.join.kind.negate? = some kind ∧ m = l.withKind kind)
    f.links g.links
  filters : g.filters.length = f.filters.length

theorem Link.invert_eq_ok_iff_negate {l m : Link} :
    l.invert = .ok m ↔ ∃ kind, l.join.kind.negate? = some kind ∧ m = l.withKind kind := by
  unfold Link.invert Link.withKind
  cases l.join.kind.negate? <;> simp [eq_comm]

theorem Filter.invertAll_eq_ok_iff {fs gs : List Filter} :
    Filter.invertAll fs = .ok gs ↔ List.Forall₂ (fun f g => f.invert = .ok g) fs gs := by
  induction fs generalizing gs with
  | nil =>
    rw [Filter.invertAll, List.forall₂_nil_left_iff, Except.ok.injEq, eq_comm]
  | cons f fs ih =>
    rw [Filter.invertAll_cons_eq_ok_iff, List.forall₂_cons_left_iff]
    simp only [ih]
    constructor
    · rintro ⟨g, gs, rfl, head, rest⟩
      exact ⟨g, gs, head, rest, rfl⟩
    · rintro ⟨g, gs, head, rest, rfl⟩
      exact ⟨g, gs, rfl, head, rest⟩

theorem Filter.invert_symm {f g : Filter} (h : f.invert = .ok g) : g.invert = .ok f := by
  have singles : Filter.invertAll [f] = .ok [g] := Filter.invertAll_eq_ok_iff.mpr (.cons h .nil)
  cases Filter.invertAll_eq_ok_iff.mp (Filter.invertAll_symm singles) with
  | cons back _ => exact back

theorem Filter.opposite_of_invert {f g : Filter} (h : f.invert = .ok g) : f.Opposite g := by
  obtain ⟨connective, conditions, filters, links⟩ := f
  obtain ⟨conditions', filters', links', rfl, own, related, nested⟩ :=
    Filter.invert_eq_ok_iff.mp h
  refine ⟨rfl, ?_, ?_, ?_⟩
  · exact own.imp fun _ _ => Condition.invert_eq_ok_iff.mp
  · exact related.imp fun _ _ => Link.invert_eq_ok_iff_negate.mp
  · exact (Filter.invertAll_eq_ok_iff.mp nested).length_eq.symm

/-- At every position of a filter its inverse has the inverse of what is there. -/
theorem Filter.at?_invert {f g : Filter} (h : f.invert = .ok g) (path : List Nat) :
    Option.Rel (fun n m => n.invert = .ok m) (f.at? path) (g.at? path) := by
  induction path generalizing f g with
  | nil => exact .some h
  | cons i path ih =>
    obtain ⟨connective, conditions, filters, links⟩ := f
    obtain ⟨conditions', filters', links', rfl, _, _, nested⟩ := Filter.invert_eq_ok_iff.mp h
    have here := rel_getElem?_of_forall₂ (Filter.invertAll_eq_ok_iff.mp nested) i
    simp only [Filter.at?]
    generalize filters[i]? = n at here
    generalize filters'[i]? = m at here
    cases here with
    | none => exact .none
    | some inner => exact ih inner

def Filter.Admits (f : Filter) : Prop :=
  (∀ c ∈ f.conditions, c.operator.inverse?.isSome) ∧
    ∀ l ∈ f.links, l.join.kind ∈
      [.related .any false, .related .all false, .related .any true, .related .all true]

theorem LinkKind.isSome_negate?_iff (kind : LinkKind) : kind.negate?.isSome ↔ kind ∈
    [LinkKind.related .any false, .related .all false, .related .any true, .related .all true] := by
  rcases kind with _ | _ | ⟨_ | _, _ | _⟩ <;> decide

theorem Filter.admits_iff (f : Filter) :
    f.Admits ↔ (∀ c ∈ f.conditions, ∃ d, c.invert = .ok d) ∧
      ∀ l ∈ f.links, ∃ m, l.invert = .ok m := by
  have own (c : Condition) : (∃ d, c.invert = .ok d) ↔ c.operator.inverse?.isSome := by
    simp [Condition.invert_eq_ok_iff, Option.isSome_iff_exists]
  have related (l : Link) : (∃ m, l.invert = .ok m) ↔ l.join.kind.negate?.isSome := by
    simp [Link.invert_eq_ok_iff_negate, Option.isSome_iff_exists]
  simp only [Filter.Admits, own, related, LinkKind.isSome_negate?_iff]

/-- A filter is inverted part by part. -/
theorem Filter.exists_invert_iff (f : Filter) :
    (∃ g, f.invert = .ok g) ↔ f.Admits ∧ ∀ n ∈ f.filters, ∃ m, n.invert = .ok m := by
  obtain ⟨connective, conditions, filters, links⟩ := f
  rw [Filter.admits_iff]
  simp only [← exists_forall₂_iff]
  constructor
  · rintro ⟨g, h⟩
    obtain ⟨conditions', filters', links', rfl, own, related, nested⟩ :=
      Filter.invert_eq_ok_iff.mp h
    exact ⟨⟨⟨_, own⟩, _, related⟩, _, Filter.invertAll_eq_ok_iff.mp nested⟩
  · rintro ⟨⟨⟨conditions', own⟩, links', related⟩, filters', nested⟩
    exact ⟨_, Filter.invert_eq_ok_iff.mpr
      ⟨_, _, _, rfl, own, related, Filter.invertAll_eq_ok_iff.mpr nested⟩⟩

theorem Filter.at?_cons_of_mem {f n : Filter} (h : n ∈ f.filters) :
    ∃ i, ∀ path, f.at? (i :: path) = n.at? path := by
  obtain ⟨i, hi⟩ := List.mem_iff_getElem?.mp h
  refine ⟨i, ?_⟩
  intro path
  rw [Filter.at?, hi, Option.bind_some]

theorem Filter.size_lt_of_mem {f n : Filter} (h : n ∈ f.filters) : n.size < f.size := by
  obtain ⟨connective, conditions, filters, links⟩ := f
  have below : n.size < Filter.sizes filters := by
    change n ∈ filters at h
    induction filters with
    | nil => cases h
    | cons g gs ih =>
      rw [Filter.sizes]
      rcases List.mem_cons.mp h with rfl | rest
      · omega
      · have := ih rest
        omega
  rw [Filter.size]
  omega

/-- A filter has an inverse if no filter at any position stands in its way. -/
theorem Filter.exists_invert_of_admits (f : Filter)
    (h : ∀ path n, f.at? path = some n → n.Admits) : ∃ g, f.invert = .ok g := by
  apply (Filter.exists_invert_iff f).mpr
  refine ⟨h [] f rfl, ?_⟩
  intro n member
  obtain ⟨i, step⟩ := Filter.at?_cons_of_mem member
  apply Filter.exists_invert_of_admits n
  intro path m found
  exact h (i :: path) m ((step path).trans found)
termination_by f.size
decreasing_by exact Filter.size_lt_of_mem member

/-- A filter has an inverse exactly if the filters at all its positions admit one. The inverse of
the inverse is the filter itself; between the two, nothing but the connectives, the operators and
the kinds of the links changes. -/
theorem Filter.invert_exact_involution (f : Filter) :
    ((∃ g, f.invert = .ok g) ↔ ∀ path n, f.at? path = some n → n.Admits) ∧
      ∀ g, f.invert = .ok g →
        g.invert = .ok f ∧ ∀ path, Option.Rel Filter.Opposite (f.at? path) (g.at? path) := by
  refine ⟨⟨?_, Filter.exists_invert_of_admits f⟩, ?_⟩
  · rintro ⟨g, h⟩ path n found
    have here := Filter.at?_invert h path
    rw [found] at here
    generalize g.at? path = m at here
    cases here with
    | some inner => exact ((Filter.exists_invert_iff n).mp ⟨_, inner⟩).1
  · intro g h
    refine ⟨Filter.invert_symm h, ?_⟩
    intro path
    exact rel_imp (fun _ _ => Filter.opposite_of_invert) (Filter.at?_invert h path)

def Filter.fewOrNamed : Filter :=
  { connective := .or
    conditions := [{ column := "numberofemployees", operator := .lt, value := some "10" }]
    filters := [
      { conditions := [{ column := "name", operator := .inList, values := ["FXB", "XTB"] }] },
      { filters := [{ connective := .or }] }]
    links := [{
      join := { entity := "contact", fromColumn := "parentcustomerid", toColumn := "accountid",
                kind := .related .any true },
      filters := [{ conditions := [{ column := "createdon", operator := .today }] }] }] }

def Filter.manyAndUnnamed : Filter :=
  { conditions := [{ column := "numberofemployees", operator := .ge, value := some "10" }]
    filters := [
      { connective := .or
        conditions := [{ column := "name", operator := .notInList, values := ["FXB", "XTB"] }] },
      { connective := .or, filters := [{}] }]
    links := [{
      join := { entity := "contact", fromColumn := "parentcustomerid", toColumn := "accountid",
                kind := .related .any false },
      filters := [{ conditions := [{ column := "createdon", operator := .today }] }] }] }

theorem Filter.invert_fewOrNamed : fewOrNamed.invert = .ok manyAndUnnamed := by
  rfl

theorem Filter.invert_exact_involution_fewOrNamed :
    fewOrNamed.invert = .ok manyAndUnnamed ∧ manyAndUnnamed.invert = .ok fewOrNamed ∧
      Option.Rel Filter.Opposite (fewOrNamed.at? [1, 0]) (manyAndUnnamed.at? [1, 0]) := by
  have inverse := (Filter.invert_exact_involution fewOrNamed).2 manyAndUnnamed invert_fewOrNamed
  exact ⟨invert_fewOrNamed, inverse.1, inverse.2 [1, 0]⟩

end Query

end FetchOData
