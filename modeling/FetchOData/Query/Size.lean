import FetchOData.Query.Inversion

namespace FetchOData.Query

mutual
def Filter.size : Filter → Nat
  | ⟨_, _, filters, links⟩ => Filter.sizes filters + Link.sizes links + 1
def Filter.sizes : List Filter → Nat
  | [] => 0
  | f :: fs => f.size + Filter.sizes fs + 1
def Link.size : Link → Nat
  | ⟨_, _, filters, links⟩ => Filter.sizes filters + Link.sizes links + 1
def Link.sizes : List Link → Nat
  | [] => 0
  | l :: ls => l.size + Link.sizes ls + 1
end

theorem Link.size_eq (l : Link) : l.size = Filter.sizes l.filters + Link.sizes l.links + 1 := by
  cases l
  simp [Link.size]

theorem Link.size_invert {l m : Link} (h : l.invert = .ok m) : m.size = l.size := by
  unfold Link.invert at h
  split at h
  · cases h
    simp [Link.size_eq]
  · simp at h

theorem Link.sizes_mapM_invert {ls ms : List Link} (h : ls.mapM Link.invert = .ok ms) :
    Link.sizes ms = Link.sizes ls := by
  induction ls generalizing ms with
  | nil =>
    cases h
    rfl
  | cons l ls ih =>
    simp only [List.mapM_cons] at h
    cases hl : l.invert with
    | error => simp [hl, bind, Except.bind] at h
    | ok m =>
      cases hs : ls.mapM Link.invert with
      | error => simp [hl, hs, bind, Except.bind] at h
      | ok rest =>
        simp only [hl, hs, bind, Except.bind, pure, Except.pure, Except.ok.injEq] at h
        subst h
        simp [Link.sizes, Link.size_invert hl, ih hs]

mutual
theorem Filter.size_invert : ∀ {f g : Filter}, f.invert = .ok g → g.size = f.size
  | ⟨connective, conditions, filters, links⟩, g, h => by
    simp only [Filter.invert] at h
    cases hc : conditions.mapM Condition.invert with
    | error => simp [hc, bind, Except.bind] at h
    | ok cs =>
      cases hl : links.mapM Link.invert with
      | error => simp [hc, hl, bind, Except.bind] at h
      | ok ls =>
        cases hf : Filter.invertAll filters with
        | error => simp [hc, hl, hf, bind, Except.bind] at h
        | ok fs =>
          simp only [hc, hl, hf, bind, Except.bind, pure, Except.pure, Except.ok.injEq] at h
          subst h
          simp [Filter.size, Link.sizes_mapM_invert hl, Filter.sizes_invertAll hf]
theorem Filter.sizes_invertAll : ∀ {fs gs : List Filter},
    Filter.invertAll fs = .ok gs → Filter.sizes gs = Filter.sizes fs
  | [], gs, h => by
    cases h
    rfl
  | f :: fs, gs, h => by
    simp only [Filter.invertAll] at h
    cases hf : f.invert with
    | error => simp [hf, bind, Except.bind] at h
    | ok g =>
      cases hs : Filter.invertAll fs with
      | error => simp [hf, hs, bind, Except.bind] at h
      | ok rest =>
        simp only [hf, hs, bind, Except.bind, pure, Except.pure, Except.ok.injEq] at h
        subst h
        simp [Filter.sizes, Filter.size_invert hf, Filter.sizes_invertAll hs]
end

/-- The filters with something in them. -/
def Filter.nonEmpty (fs : List Filter) : List Filter :=
  fs.filter fun f => !f.isEmpty

theorem Filter.sizes_nonEmpty_le (fs : List Filter) :
    Filter.sizes (Filter.nonEmpty fs) ≤ Filter.sizes fs := by
  induction fs with
  | nil => simp [Filter.nonEmpty]
  | cons f fs ih =>
    simp only [Filter.nonEmpty, List.filter_cons] at ih ⊢
    split <;> simp only [Filter.sizes] <;> omega

/-- Filters as they stand, or inverted. -/
def Filter.reading (inverted : Bool) (fs : List Filter) : Except Unsupported (List Filter) :=
  if inverted then Filter.invertAll fs else .ok fs

theorem Filter.sizes_reading {inverted : Bool} {fs gs : List Filter}
    (h : Filter.reading inverted fs = .ok gs) : Filter.sizes gs = Filter.sizes fs := by
  cases inverted with
  | false =>
    cases h
    rfl
  | true => exact Filter.sizes_invertAll h

end FetchOData.Query
