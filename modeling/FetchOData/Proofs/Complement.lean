import FetchOData.Proofs.Inversion
import FetchOData.Proofs.Meaning

namespace FetchOData

namespace Query

inductive Filter.Flat : Filter → Prop where
  | mk (bare : f.links = []) (nested : ∀ g ∈ f.filters, Filter.Flat g) : Filter.Flat f

/-- Rows are counted alike by a test and by its opposite where they disagree, and where there are
none. -/
theorem Quantifier.over_not_eq_iff (quantifier : Quantifier) (rows : List α) (test : α → Bool) :
    quantifier.over rows (fun row => !test row) = quantifier.over rows test ↔
      rows = [] ∨ (∃ row ∈ rows, test row = true) ∧ ∃ row ∈ rows, test row = false := by
  have hr : rows = [] ↔ ∀ row ∈ rows, False := by
    rw [List.eq_nil_iff_forall_not_mem]
  cases quantifier with
  | any =>
    simp only [Quantifier.over]
    grind
  | all =>
    simp only [Quantifier.over]
    grind

end Query

namespace Compile
open Query OData

variable {t : Snapshot} {root : Query.Entity} {w : World Row}

theorem navigateAcross_withKind (parent : String) (link : Link) (kind : LinkKind)
    (sides : List (Schema.Side × Schema.Side)) :
    navigateAcross parent (link.withKind kind) sides = navigateAcross parent link sides := by
  induction sides with
  | nil => rfl
  | cons side sides ih =>
    simp only [navigateAcross, ih]
    rfl

/-- How a link is reached does not depend on its kind. -/
theorem navigate_withKind (record : Schema.Entity) (parent : String) (link : Link)
    (kind : LinkKind) :
    navigate record parent (link.withKind kind) = navigate record parent link := by
  simp only [navigate, navigateAcross_withKind]
  rfl

theorem resolves_withKind {parent : String} {link : Link} {kind : LinkKind} {n : Navigation} :
    Resolves t parent (link.withKind kind) n ↔ Resolves t parent link n := by
  simp only [Resolves, navigate_withKind]

theorem target_withKind (route : Route) (link : Link) (kind : LinkKind) :
    (target route (link.withKind kind)).name = (target route link).name ∧
      (target route (link.withKind kind)).filters = (target route link).filters := by
  have hl : (link.withKind kind).links = link.links := rfl
  unfold target
  rw [hl]
  split
  · exact ⟨rfl, rfl⟩
  · exact ⟨rfl, rfl⟩

def Complementary (t : Snapshot) (root : Query.Entity) (w : World Row) : Prop :=
  ∀ scope site c c' p p', c.invert = .ok c' → Renders t root site c p →
    Renders t root site c' p' → w.atom scope p' = !w.atom scope p

theorem Complementary.atoms (fair : Complementary t root w) {site : Site} {cs cs' : List Condition}
    {ps ps' : List Predicate} (h : List.Forall₂ (Renders t root site) cs ps)
    (h' : List.Forall₂ (Renders t root site) cs' ps')
    (hi : List.Forall₂ (fun c c' => c.invert = .ok c') cs cs') (scope : Scope Row) :
    ps'.map (w.atom scope) = (ps.map (w.atom scope)).map (!·) := by
  induction hi generalizing ps ps' with
  | nil =>
    cases h
    cases h'
    rfl
  | cons hc _ ih =>
    cases h with
    | cons hp hs =>
      cases h' with
      | cons hp' hs' => simp only [List.map_cons, fair scope _ _ _ _ _ hc hp hp', ih hs hs']

/-- The filters of a link and of its negation are read as inverses of each other. -/
theorem invertAll_of_reading {negated : Bool} {fs gs gs' : List Filter}
    (h : Filter.reading negated fs = .ok gs) (h' : Filter.reading (!negated) fs = .ok gs') :
    Filter.invertAll gs = .ok gs' := by
  cases negated with
  | false =>
    cases h
    exact h'
  | true =>
    cases h'
    exact Filter.invertAll_symm h

mutual
/-- Inverted filters are compiled to groups with the opposite values. The links in them are not:
in place of what a link says stands what it would say if every group of its body had to fail. -/
theorem GroupsOf.values_invert (fair : Complementary t root w) {site : Site}
    {v v₁ v₂ : Variables} {fs fs' : List Filter} {gs gs' : List Group}
    (h : GroupsOf t root site v fs gs v₁) (h' : GroupsOf t root site v fs' gs' v₂)
    (hi : Filter.invertAll fs = .ok fs') :
    v₁ = v₂ ∧ ∀ scope, Group.values w true scope gs' =
      (Group.values w false scope gs).map (!·) := by
  match fs with
  | [] =>
    cases hi
    cases h
    cases h'
    exact ⟨rfl, fun scope => by rw [Group.values, Group.values, List.map_nil]⟩
  | ⟨connective, conditions, filters, links⟩ :: fs =>
    obtain ⟨_, _, rfl, hg, hs⟩ := Filter.invertAll_cons_eq_ok_iff.mp hi
    obtain ⟨conditions', filters', links', rfl, hc, hl, hf⟩ := Filter.invert_eq_ok_iff.mp hg
    cases h with
    | cons own related nested rest =>
      cases h' with
      | cons own' related' nested' rest' =>
        obtain ⟨rfl, hrelated⟩ := RelatedOf.values_invert fair related related' hl
        obtain ⟨rfl, hnested⟩ := GroupsOf.values_invert fair nested nested' hf
        obtain ⟨rfl, hrest⟩ := GroupsOf.values_invert fair rest rest' hs
        refine ⟨rfl, fun scope => ?_⟩
        rw [Group.values_cons, Group.values_cons, Group.value?, Group.value?,
          Predicate.values_append, Predicate.values_append, values_of_renders own,
          values_of_renders own', fair.atoms own own' hc, hrelated, hnested, hrest,
          ← List.map_append, ← List.map_append, Connective.combine?_flip_map_not,
          List.map_append]
        cases connective.combine? _ <;> rfl
termination_by Filter.sizes fs
decreasing_by
  all_goals simp only [Filter.sizes, Filter.size]; omega
theorem RelatedOf.values_invert (fair : Complementary t root w) {site : Site}
    {v v₁ v₂ : Variables} {ls ls' : List Link} {ps ps' : List Predicate}
    (h : RelatedOf t root site v ls ps v₁) (h' : RelatedOf t root site v ls' ps' v₂)
    (hi : List.Forall₂ (fun l l' => l.invert = .ok l') ls ls') :
    v₁ = v₂ ∧ ∀ scope, Predicate.values w true scope ps' =
      (Predicate.values w false scope ps).map (!·) := by
  match ls with
  | [] =>
    cases hi
    cases h
    cases h'
    exact ⟨rfl, fun scope => by rw [Predicate.values, Predicate.values, List.map_nil]⟩
  | link :: links =>
    cases hi with
    | cons hl hs =>
      obtain ⟨quantifier, negated, hk, rfl⟩ := Link.invert_eq_ok_iff.mp hl
      cases h with
      | @cons _ n _ filters _ _ _ _ _ _ _ _ kind resolves reading body rest =>
        cases h' with
        | cons kind' resolves' reading' body' rest' =>
          cases hk.symm.trans kind
          cases kind'
          cases resolves.unique (resolves_withKind.mp resolves')
          obtain ⟨hname, hfilters⟩ := target_withKind n.route link (.related quantifier !negated)
          rw [hfilters] at reading'
          rw [hname] at body'
          -- Either link may be the negated one: inversion is symmetric, so both cases are alike.
          have hb := Filter.invertAll_nonEmpty (invertAll_of_reading reading reading')
          have : Filter.sizes (Filter.nonEmpty filters) < Link.sizes (link :: links) :=
            Nat.lt_of_le_of_lt (Filter.sizes_nonEmpty_le filters)
              (Filter.sizes_reading reading ▸ sizes_target_filters_lt n.route link links)
          obtain ⟨rfl, hbody⟩ := GroupsOf.values_invert fair body body' hb
          obtain ⟨rfl, hrest⟩ := RelatedOf.values_invert fair rest rest' hs
          refine ⟨rfl, fun scope => ?_⟩
          rw [Predicate.values_related, Predicate.values_related, hrest]
          simp [hbody, List.all_map, Function.comp_def]
termination_by Link.sizes ls
decreasing_by
  · assumption
  · exact sizes_rest_lt ..
end

/-- The negation of a link holds where the link would not hold if its rows had to fail. -/
theorem RelatedOf.holds_invert (fair : Complementary t root w) {site : Site}
    {v v₁ v₂ : Variables} {link link' : Link} {p p' : Predicate}
    (h : RelatedOf t root site v [link] [p] v₁) (h' : RelatedOf t root site v [link'] [p'] v₂)
    (hi : link.invert = .ok link') (scope : Scope Row) :
    w.holds scope p' = !p.value w false scope := by
  have hv := (RelatedOf.values_invert fair h h' (.cons hi .nil)).2 scope
  cases h with
  | cons _ _ _ _ rest =>
    cases h' with
    | cons _ _ _ _ rest' =>
      cases rest
      cases rest'
      rw [Predicate.values_related, Predicate.values_related, Predicate.values,
        Predicate.values] at hv
      rw [World.holds, Predicate.value, Predicate.value]
      exact List.head_eq_of_cons_eq hv

/-- Without links it makes no difference what the rows of links are wanted to do. -/
theorem GroupsOf.values_flat {site : Site} {v v' : Variables} {fs : List Filter} {gs : List Group}
    (h : GroupsOf t root site v fs gs v') (hf : ∀ f ∈ fs, f.Flat) (scope : Scope Row) :
    Group.values w false scope gs = Group.values w true scope gs := by
  match fs with
  | [] =>
    cases h
    rw [Group.values, Group.values]
  | ⟨connective, conditions, filters, links⟩ :: fs =>
    obtain ⟨bare, inner⟩ := hf _ List.mem_cons_self
    cases bare
    cases h with
    | cons own related nested rest =>
      cases related
      have hn := GroupsOf.values_flat nested inner scope
      have hr := GroupsOf.values_flat rest (fun f hm => hf f (List.mem_cons_of_mem _ hm)) scope
      rw [Group.values_cons, Group.values_cons, Group.value?, Group.value?, List.append_nil,
        values_of_renders own, values_of_renders own, hn, hr]
termination_by Filter.sizes fs
decreasing_by
  all_goals simp only [Filter.sizes, Filter.size]; omega

/-- One filter without links fails where it does not hold. -/
theorem GroupsOf.all_not_of_flat {site : Site} {v v' : Variables} {f : Filter} {gs : List Group}
    (h : GroupsOf t root site v [f] gs v') (flat : f.Flat)
    (written : (Group.conjunction? gs).isSome) (scope : Scope Row) :
    (Group.values w false scope gs).all (!·) = !w.holdsAll scope gs := by
  have hflat : ∀ g ∈ [f], g.Flat := fun g hg => List.mem_singleton.mp hg ▸ flat
  rw [Group.isSome_conjunction? w true scope] at written
  rw [h.values_flat hflat, World.holdsAll]
  cases h with
  | cons own related nested rest =>
    cases rest
    rw [Group.values_cons, Group.values, List.append_nil] at written ⊢
    cases hg : Group.value? w true scope _ with
    | none => simp [hg] at written
    | some value => simp

/-- A link and its negation are complements exactly if its quantifier gives the same for failing
every filter as for passing every filter. With one filter that has no links in it, that is where
some of the rows pass it and some do not, and where there are no rows. -/
theorem negated_link_complement_iff {site : Site} {v v₁ v₂ : Variables} {link : Link}
    {quantifier : Quantifier} {p p' : Predicate} (fair : Complementary t root w)
    (kind : link.join.kind = .related quantifier false)
    (h : Gives t (relatedPredicates root site [link]) v [p] v₁)
    (h' : Gives t (relatedPredicates root site [link.withKind (.related quantifier true)]) v [p']
      v₂)
    (scope : Scope Row) :
    ∃ n range body, Resolves t site.entity link n ∧
      p = .related false site.path n.property quantifier range body ∧
      (w.holds scope p' = !w.holds scope p ↔
        quantifier.over (w.rows scope site.path n.property) (fun row =>
            (Group.values w false (scope.set range row) body).all (!·)) =
          quantifier.over (w.rows scope site.path n.property) fun row =>
            w.holdsAll (scope.set range row) body) ∧
      ∀ f, Filter.nonEmpty (target n.route link).filters = [f] → f.Flat →
        (Group.conjunction? body).isSome →
        (w.holds scope p' = !w.holds scope p ↔
          w.rows scope site.path n.property = [] ∨
            (∃ row ∈ w.rows scope site.path n.property,
              w.holdsAll (scope.set range row) body = true) ∧
            ∃ row ∈ w.rows scope site.path n.property,
              w.holdsAll (scope.set range row) body = false) := by
  have hi : link.invert = .ok (link.withKind (.related quantifier true)) :=
    Link.invert_eq_ok_iff.mpr ⟨quantifier, false, kind, rfl⟩
  have hr := relatedOf_of_gives h
  have hnot := RelatedOf.holds_invert fair hr (relatedOf_of_gives h') hi scope
  cases hr with
  | @cons _ n _ _ body _ _ _ _ _ _ _ kind' resolves reading groups rest =>
    cases kind.symm.trans kind'
    cases reading
    cases rest
    have hyes := w.holds_related scope false site.path n.property quantifier v.lambda body
    rw [Bool.false_xor] at hyes
    rw [Predicate.value, Bool.false_xor] at hnot
    simp only [beq_false] at hnot
    refine ⟨n, _, body, resolves, rfl, ?_, ?_⟩
    · rw [hnot, hyes, Bool.not_inj_iff]
    · intro f hf flat written
      rw [hf] at groups
      simp only [groups.all_not_of_flat flat written] at hnot
      rw [hnot, hyes, Bool.not_inj_iff, Quantifier.over_not_eq_iff]

def positiveComparison : Comparison → Bool
  | .eq | .gt | .lt => true
  | .ne | .le | .ge => false

def positiveFunction (name : String) : Bool :=
  !(["NotIn", "NotBetween", "DoesNotContainValues", "NotUnder"].contains name)

def Form.positive : Form → Bool
  | .compare comparison => positiveComparison comparison
  | .isNull negated | .like negated | .test negated _ => !negated
  | .call function _ => positiveFunction function

def positive : Predicate → Bool
  | .compare _ comparison _ => positiveComparison comparison
  | .isNull _ negated | .test negated .. => !negated
  | .call _ function .. => positiveFunction function
  | .verbatim _ | .related .. => true

theorem Shape.positive_eq {attr : Schema.Attribute} {path : Path} {c : Condition} {p : Predicate}
    (h : Shape attr path c p) : positive p = (Form.ofOperator c.operator).positive := by
  cases h with
  | compareLiteral form => rw [form]; rfl
  | compareColumn form => rw [form]; rfl
  | isNull form => rw [form]; rfl
  | @likeText negated form => rw [form]; cases negated <;> rfl
  | likeTest form => rw [form]; rfl
  | test form => rw [form]; rfl
  | call form => rw [form]; rfl

theorem positive_inverse {o o' : Operator} (h : o.inverse? = some o') :
    (Form.ofOperator o').positive = !(Form.ofOperator o).positive := by
  cases o <;> cases h <;> decide

/-- Rows that pass the positive conditions, and rows that pass the others. -/
def polarWorld (rows : List Bool) : World Bool where
  rows _ _ _ := rows
  atom scope p := positive p == (scope "x1").getD true

theorem complementary_polarWorld (t : Snapshot) (root : Query.Entity) (rows : List Bool) :
    Complementary t root (polarWorld rows) := by
  intro scope site c c' p p' hi hp hp'
  obtain ⟨o, ho, rfl⟩ := Condition.invert_eq_ok_iff.mp hi
  obtain ⟨_, _, _, _, _, _, _, shape⟩ := hp.shape
  obtain ⟨_, _, _, _, _, _, _, shape'⟩ := hp'.shape
  simp only [polarWorld, shape.positive_eq, shape'.positive_eq, positive_inverse ho]
  cases (Form.ofOperator c.operator).positive <;> cases (scope "x1").getD true <;> rfl

def someMark : Link :=
  { join := { entity := "contact", fromColumn := "parentcustomerid", toColumn := "accountid",
              kind := .related .any false },
    filters := [{
      conditions := [{ column := "firstname", operator := .eq, value := some "Mark" }] }] }

def markPredicate : Predicate :=
  .related false [] "contact_customer_accounts" .any "x1"
    [⟨.and, [.compare ⟨["x1"], "firstname", false⟩ .eq (.literal "'Mark'")], []⟩]

def noMarkPredicate : Predicate :=
  .related true [] "contact_customer_accounts" .any "x1"
    [⟨.or, [.compare ⟨["x1"], "firstname", false⟩ .ne (.literal "'Mark'")], []⟩]

/-- For an account whose only contact is called Mark, that some contact is called so and that none
is both hold. With a second contact who is not, they are complements. -/
theorem negated_link_complement_iff_someMark :
    Gives Catalog.sample.snapshot (relatedPredicates { name := "account" } ⟨"account", []⟩
        [someMark]) {} [markPredicate] ⟨1, 0⟩ ∧
      Gives Catalog.sample.snapshot (relatedPredicates { name := "account" } ⟨"account", []⟩
        [someMark.withKind (.related .any true)]) {} [noMarkPredicate] ⟨1, 0⟩ ∧
      (polarWorld [true]).holds .empty noMarkPredicate ≠
        !(polarWorld [true]).holds .empty markPredicate ∧
      (polarWorld [true, false]).holds .empty noMarkPredicate =
        !(polarWorld [true, false]).holds .empty markPredicate := by
  have h : Gives Catalog.sample.snapshot (relatedPredicates { name := "account" } ⟨"account", []⟩
      [someMark]) {} [markPredicate] ⟨1, 0⟩ := by
    with_unfolding_all rfl
  have h' : Gives Catalog.sample.snapshot (relatedPredicates { name := "account" } ⟨"account", []⟩
      [someMark.withKind (.related .any true)]) {} [noMarkPredicate] ⟨1, 0⟩ := by
    with_unfolding_all rfl
  refine ⟨h, h', ?_, ?_⟩
  · obtain ⟨n, range, body, resolves, hp, complement, _⟩ := negated_link_complement_iff
      (complementary_polarWorld _ _ [true]) rfl h h' .empty
    obtain ⟨_, _, hn, _, rfl, rfl⟩ := Predicate.related.inj hp
    rw [Ne, complement, ← hn]
    decide +kernel
  · obtain ⟨n, range, body, resolves, hp, complement, _⟩ := negated_link_complement_iff
      (complementary_polarWorld _ _ [true, false]) rfl h h' .empty
    obtain ⟨_, _, hn, _, rfl, rfl⟩ := Predicate.related.inj hp
    rw [complement, ← hn]
    decide +kernel

end Compile

end FetchOData
