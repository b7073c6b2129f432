import FetchOData.Proofs.Inversion
import FetchOData.Proofs.Coverage

namespace FetchOData.Query

mutual
def Filter.isVoid : Filter → Bool
  | ⟨_, conditions, filters, links⟩ =>
    conditions.isEmpty && links.isEmpty && Filter.allVoid filters
def Filter.allVoid : List Filter → Bool
  | [] => true
  | f :: fs => f.isVoid && Filter.allVoid fs
end

mutual
def Filter.pruned : Filter → Filter
  | ⟨connective, conditions, filters, links⟩ =>
    ⟨connective, conditions, Filter.prune filters, Link.prune false links⟩
def Filter.prune : List Filter → List Filter
  | [] => []
  | f :: fs => if f.isVoid then Filter.prune fs else f.pruned :: Filter.prune fs
/-- The link without void filters. With `keep`, a link that brings nothing but void filters keeps
them. -/
def Link.pruned (keep : Bool) : Link → Link
  | ⟨join, selection, filters, links⟩ =>
    ⟨join, selection,
      if keep && selection.isEmpty && links.isEmpty && Filter.allVoid filters then filters
      else Filter.prune filters,
      Link.prune keep links⟩
def Link.prune (keep : Bool) : List Link → List Link
  | [] => []
  | l :: ls => l.pruned keep :: Link.prune keep ls
end

def Link.onlyVoid (l : Link) : Bool :=
  l.selection.isEmpty && l.links.isEmpty && Filter.allVoid l.filters

def Entity.pruned (keep : Bool) (e : Entity) : Entity :=
  { e with filters := Filter.prune e.filters, links := Link.prune keep e.links }

def Fetch.pruned (keep : Bool) (f : Fetch) : Fetch :=
  { f with entity := f.entity.map (Entity.pruned keep) }

theorem Link.prune_eq_map (keep : Bool) (ls : List Link) :
    Link.prune keep ls = ls.map (Link.pruned keep) := by
  induction ls with
  | nil => rfl
  | cons l ls ih => rw [Link.prune, ih, List.map_cons]

@[simp] theorem Link.join_pruned (keep : Bool) (l : Link) : (l.pruned keep).join = l.join := by
  cases l
  rw [Link.pruned]

@[simp] theorem Link.name_pruned (keep : Bool) (l : Link) : (l.pruned keep).name = l.name := by
  rw [Link.name, Link.join_pruned, Link.name]

@[simp] theorem Link.selection_pruned (keep : Bool) (l : Link) :
    (l.pruned keep).selection = l.selection := by
  cases l
  rw [Link.pruned]

theorem Link.links_pruned (keep : Bool) (l : Link) :
    (l.pruned keep).links = Link.prune keep l.links := by
  cases l
  rw [Link.pruned]

theorem Link.filters_pruned (keep : Bool) (l : Link) :
    (l.pruned keep).filters =
      if keep && l.onlyVoid then l.filters else Filter.prune l.filters := by
  cases l
  simp only [Link.pruned, Link.onlyVoid, Bool.and_assoc]

theorem Filter.prune_eq_nil_iff (fs : List Filter) :
    Filter.prune fs = [] ↔ Filter.allVoid fs = true := by
  induction fs with
  | nil => simp [Filter.prune, Filter.allVoid]
  | cons f fs ih =>
    rw [Filter.prune, Filter.allVoid]
    cases f.isVoid with
    | false => simp
    | true => simpa using ih

theorem Filter.isVoid_of_isEmpty {f : Filter} (h : f.isEmpty = true) : f.isVoid = true := by
  obtain ⟨_, conditions, filters, links⟩ := f
  simp only [Filter.isEmpty, Bool.and_eq_true, List.isEmpty_iff] at h
  obtain ⟨⟨rfl, rfl⟩, rfl⟩ := h
  rfl

theorem Filter.isEmpty_pruned {f : Filter} (h : f.isVoid = false) : f.pruned.isEmpty = false := by
  obtain ⟨_, conditions, filters, links⟩ := f
  rw [Bool.eq_false_iff] at h ⊢
  intro he
  apply h
  simp only [Filter.isEmpty, Filter.pruned, Bool.and_eq_true, List.isEmpty_iff,
    Filter.prune_eq_nil_iff, Link.prune_eq_map, List.map_eq_nil_iff] at he
  obtain ⟨⟨rfl, hf⟩, rfl⟩ := he
  simp [Filter.isVoid, hf]

/-- Of pruned filters none is left out. -/
theorem Filter.nonEmpty_prune (fs : List Filter) :
    Filter.nonEmpty (Filter.prune fs) = Filter.prune fs := by
  induction fs with
  | nil => rfl
  | cons f fs ih =>
    rw [Filter.prune]
    split
    · exact ih
    · rename_i h
      rw [Filter.nonEmpty, List.filter_cons, Filter.isEmpty_pruned (Bool.eq_false_iff.mpr h)]
      exact congrArg (f.pruned :: ·) ih

theorem Filter.prune_nonEmpty (fs : List Filter) :
    Filter.prune (Filter.nonEmpty fs) = Filter.prune fs := by
  induction fs with
  | nil => rfl
  | cons f fs ih =>
    rw [Filter.nonEmpty, List.filter_cons]
    cases he : f.isEmpty with
    | false =>
      change Filter.prune (f :: Filter.nonEmpty fs) = _
      rw [Filter.prune, Filter.prune, ih]
    | true =>
      rw [Filter.prune, Filter.isVoid_of_isEmpty he]
      exact ih

/-- Filters that are void stay void when those with nothing in them are left out. -/
theorem Filter.allVoid_nonEmpty {fs : List Filter} (h : Filter.allVoid fs = true) :
    Filter.allVoid (Filter.nonEmpty fs) = true := by
  rw [← Filter.prune_eq_nil_iff] at h ⊢
  rw [Filter.prune_nonEmpty, h]

/-- A link that only void filters are taken from still brings something if it did before. -/
theorem Link.hasContent_pruned (l : Link) : (l.pruned true).hasContent = l.hasContent := by
  have hl : (Link.prune true l.links).isEmpty = l.links.isEmpty := by
    rw [Link.prune_eq_map, List.isEmpty_map]
  rw [Link.hasContent, Link.hasContent, Link.selection_pruned, Link.links_pruned, hl,
    Link.filters_pruned]
  cases hs : l.selection.isEmpty with
  | false => rfl
  | true =>
    cases hn : l.links.isEmpty with
    | false => simp
    | true =>
      cases hv : Filter.allVoid l.filters with
      | true => simp [Link.onlyVoid, hs, hn, hv]
      | false =>
        have hp : (Filter.prune l.filters).isEmpty = false := by
          rw [Bool.eq_false_iff, ne_eq, List.isEmpty_iff, Filter.prune_eq_nil_iff, hv]
          simp
        have hf : l.filters.isEmpty = false := by
          cases h : l.filters with
          | nil => rw [h] at hv; cases hv
          | cons => rfl
        simp [Link.onlyVoid, hs, hn, hv, hp, hf]

section Inversion

theorem Link.invert_pruned (keep : Bool) (l : Link) :
    (l.pruned keep).invert = l.invert.map (Link.pruned keep) := by
  obtain ⟨join, selection, filters, links⟩ := l
  simp only [Link.invert, Link.pruned]
  cases join.kind.negate? <;> rfl

theorem Link.mapM_invert_prune (keep : Bool) (ls : List Link) :
    (Link.prune keep ls).mapM Link.invert = (ls.mapM Link.invert).map (Link.prune keep) := by
  induction ls with
  | nil => rfl
  | cons l ls ih =>
    rw [Link.prune, List.mapM_cons, List.mapM_cons, ih, Link.invert_pruned]
    cases l.invert with
    | error => rfl
    | ok l' =>
      cases ls.mapM Link.invert with
      | error => rfl
      | ok ls' => rfl

mutual
/-- Void filters can always be inverted, to void filters. -/
theorem Filter.invert_of_isVoid : ∀ {f : Filter}, f.isVoid = true →
    ∃ g, f.invert = .ok g ∧ g.isVoid = true
  | ⟨connective, conditions, filters, links⟩, h => by
    simp only [Filter.isVoid, Bool.and_eq_true, List.isEmpty_iff] at h
    obtain ⟨⟨rfl, rfl⟩, hf⟩ := h
    obtain ⟨gs, hg, hv⟩ := Filter.invertAll_of_allVoid hf
    refine ⟨⟨connective.flip, [], gs, []⟩, ?_, ?_⟩
    · rw [Filter.invert, hg]
      rfl
    · rw [Filter.isVoid, hv]
      rfl
theorem Filter.invertAll_of_allVoid : ∀ {fs : List Filter}, Filter.allVoid fs = true →
    ∃ gs, Filter.invertAll fs = .ok gs ∧ Filter.allVoid gs = true
  | [], _ => ⟨[], rfl, rfl⟩
  | f :: fs, h => by
    simp only [Filter.allVoid, Bool.and_eq_true] at h
    obtain ⟨g, hg, hv⟩ := Filter.invert_of_isVoid h.1
    obtain ⟨gs, hgs, hvs⟩ := Filter.invertAll_of_allVoid h.2
    refine ⟨g :: gs, ?_, ?_⟩
    · rw [Filter.invertAll, hg, hgs]
      rfl
    · rw [Filter.allVoid, hv, hvs]
      rfl
end

theorem Filter.isVoid_invert {f g : Filter} (h : f.invert = .ok g) : g.isVoid = f.isVoid := by
  have hs : Filter.invertAll [f] = .ok [g] :=
    Filter.invertAll_cons_eq_ok_iff.mpr ⟨g, [], rfl, h, rfl⟩
  obtain ⟨f', _, he, hf, _⟩ := Filter.invertAll_cons_eq_ok_iff.mp (Filter.invertAll_symm hs)
  cases he
  rw [Bool.eq_iff_iff]
  constructor
  · intro hv
    obtain ⟨f', hi, hv'⟩ := Filter.invert_of_isVoid hv
    cases hf.symm.trans hi
    exact hv'
  · intro hv
    obtain ⟨g', hi, hv'⟩ := Filter.invert_of_isVoid hv
    cases h.symm.trans hi
    exact hv'

mutual
theorem Filter.invert_pruned : ∀ f : Filter, f.pruned.invert = f.invert.map Filter.pruned
  | ⟨connective, conditions, filters, links⟩ => by
    rw [Filter.pruned, Filter.invert, Filter.invert, Link.mapM_invert_prune,
      Filter.invertAll_prune filters]
    cases conditions.mapM Condition.invert with
    | error => rfl
    | ok conditions' =>
      cases links.mapM Link.invert with
      | error => rfl
      | ok links' =>
        cases Filter.invertAll filters with
        | error => rfl
        | ok filters' => rfl
/-- A void filter never stands in the way of inverting the others. -/
theorem Filter.invertAll_prune : ∀ fs : List Filter,
    Filter.invertAll (Filter.prune fs) = (Filter.invertAll fs).map Filter.prune
  | [] => rfl
  | f :: fs => by
    cases hv : f.isVoid with
    | true =>
      obtain ⟨g, hg, hgv⟩ := Filter.invert_of_isVoid hv
      rw [Filter.prune, if_pos hv, Filter.invertAll_prune fs, Filter.invertAll, hg]
      cases Filter.invertAll fs with
      | error => rfl
      | ok gs =>
        change Except.ok (Filter.prune gs) = .ok (Filter.prune (g :: gs))
        rw [Filter.prune, if_pos hgv]
    | false =>
      rw [Filter.prune, if_neg (by simp [hv]), Filter.invertAll, Filter.invertAll,
        Filter.invert_pruned f, Filter.invertAll_prune fs]
      cases hg : f.invert with
      | error => rfl
      | ok g =>
        cases Filter.invertAll fs with
        | error => rfl
        | ok gs =>
          change Except.ok (g.pruned :: Filter.prune gs) = .ok (Filter.prune (g :: gs))
          rw [Filter.prune, if_neg (by simp [Filter.isVoid_invert hg, hv])]
end

theorem Filter.reading_prune (inverted : Bool) (fs : List Filter) :
    Filter.reading inverted (Filter.prune fs) =
      (Filter.reading inverted fs).map Filter.prune := by
  cases inverted with
  | false => rfl
  | true => exact Filter.invertAll_prune fs

end Inversion

/-- Where every link that brings only void filters has none of them, no link has to keep any. -/
theorem Link.prune_true_eq_prune_false {ls : List Link}
    (h : ∀ l : Link, l.Below ls → l.onlyVoid = true → l.filters = []) :
    Link.prune true ls = Link.prune false ls := by
  match ls with
  | [] => rfl
  | l :: ls =>
    have nested : Link.prune true l.links = Link.prune false l.links :=
      Link.prune_true_eq_prune_false fun m below => h m (.deeper List.mem_cons_self below)
    have rest : Link.prune true ls = Link.prune false ls := by
      apply Link.prune_true_eq_prune_false
      intro m below
      apply h m
      cases below with
      | here member => exact .here (List.mem_cons_of_mem l member)
      | deeper member inner => exact .deeper (List.mem_cons_of_mem l member) inner
    have own : (l.pruned true).filters = (l.pruned false).filters := by
      rw [Link.filters_pruned, Link.filters_pruned]
      cases hv : l.onlyVoid with
      | false => rfl
      | true => simp [h l (.here List.mem_cons_self) hv, Filter.prune]
    have here : l.pruned true = l.pruned false := by
      cases l
      simp only [Link.pruned, Link.mk.injEq, true_and] at own ⊢
      exact ⟨own, nested⟩
    rw [Link.prune, Link.prune, here, rest]
termination_by Link.sizes ls
decreasing_by
  · simp only [Link.sizes, Link.size_eq]
    omega
  · simp only [Link.sizes]
    omega

end FetchOData.Query
