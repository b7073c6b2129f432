import FetchOData.Proofs.Alike
import FetchOData.Proofs.InnerJoin
import FetchOData.Proofs.LiteralText
import FetchOData.Proofs.NamedLinks
import FetchOData.Proofs.Origins
import FetchOData.Proofs.Spelling

namespace FetchOData

namespace OData

/-- A text with a place for a path, which is encoded if it stands for an argument. -/
inductive Frame where
  | fixed (text : String)
  | plain (before after : String)
  | encoded (before after : String)
deriving DecidableEq, Repr

def Frame.fill (path : String) : Frame → String
  | fixed text => text
  | plain before after => before ++ path ++ after
  | encoded before after => before ++ Text.encode path ++ after

def Predicate.moved (path : Path) : Predicate → Predicate
  | .verbatim text => .verbatim text
  | .compare property comparison operand => .compare { property with path } comparison operand
  | .isNull property negated => .isNull { property with path } negated
  | .test negated kind _ column text => .test negated kind path column text
  | .call _ function column arguments => .call path function column arguments
  | .related negated _ collection quantifier range body =>
    .related negated path collection quantifier range body

/-- A predicate about the row of the query is moved behind the path. -/
def Predicate.under (path : Path) (p : Predicate) : Predicate :=
  if p.path? = some [] then p.moved path else p

mutual
def Group.under (path : Path) : Group → Group
  | ⟨connective, predicates, groups⟩ =>
    ⟨connective, predicates.map (Predicate.under path), Group.underAll path groups⟩
def Group.underAll (path : Path) : List Group → List Group
  | [] => []
  | g :: gs => g.under path :: Group.underAll path gs
end

def Predicate.isTest : Predicate → Bool
  | .test .. => true
  | _ => false

def Predicate.around : Predicate → Frame
  | .test negated kind _ column text =>
    .encoded (negation negated ++ kind.word ++ "(")
      (Text.encode column ++ ", " ++ Text.quoted text ++ ")")
  | .related negated _ collection quantifier range body =>
    .plain (negation negated) (Predicate.related false [] collection quantifier range body).text
  | p => .plain "" (p.moved []).text

def Predicate.frame (p : Predicate) : Frame :=
  if p.path? = some [] then p.around else .fixed p.text

namespace Predicate

theorem text_moved {p : Predicate} (h : p.path?.isSome) (path : Path) :
    (p.moved path).text = p.around.fill path.text := by
  cases p with
  | verbatim text => cases h
  | compare property comparison operand =>
    simp [moved, around, Frame.fill, text, Property.text, Path.text, String.append_assoc]
  | isNull property negated =>
    simp [moved, around, Frame.fill, text, Property.text, Path.text, String.append_assoc]
  | test negated kind own column value =>
    simp [moved, around, Frame.fill, text, String.append_assoc, Text.encode_append]
  | call own function column arguments =>
    simp [moved, around, Frame.fill, text, Path.text, String.append_assoc]
  | related negated own collection quantifier range body =>
    simp [moved, around, Frame.fill, text, Path.text, String.append_assoc, negation]

/-- The path comes into the text in one place at most. -/
theorem text_under (path : Path) (p : Predicate) :
    (p.under path).text = p.frame.fill path.text := by
  by_cases h : p.path? = some []
  · rw [under, frame, if_pos h, if_pos h, text_moved (by simp [h])]
  · rw [under, frame, if_neg h, if_neg h, Frame.fill]

theorem moved_self {path : Path} {p : Predicate} (h : p.path? = some path) : p.moved path = p := by
  cases p with
  | verbatim text => rfl
  | compare property comparison operand =>
    cases h
    rfl
  | isNull property negated =>
    cases h
    rfl
  | test negated kind own column value =>
    cases h
    rfl
  | call own function column arguments =>
    cases h
    rfl
  | related negated own collection quantifier range body =>
    cases h
    rfl

end Predicate

end OData

def Query.Condition.isTextTest (c : Query.Condition) : Bool :=
  match Compile.Form.ofOperator c.operator with
  | .test .. => true
  | .like _ =>
    (c.value.bind (Compile.Pattern.ofChars? ·.toList)).any fun p => p.leading || p.trailing
  | _ => false

namespace Compile
open Query OData

/-- What the path of the place does to a condition: nothing if the condition names a link, and
otherwise it stands in one place of the text. -/
def Suits (c : Condition) : Frame → Prop
  | .fixed _ => c.entityName.isSome
  | .plain .. => c.entityName = none ∧ c.isTextTest = false
  | .encoded .. => c.entityName = none ∧ c.isTextTest = true

/-- The filters and the groups that they are compiled to where no path is needed: a group for each
filter, with a predicate for each condition and behind them one for each link. -/
inductive Fits : List Filter → List Group → Prop where
  | nil : Fits [] []
  | cons (own : List.Forall₂ (fun c p => Suits c p.frame) conditions predicates)
      (related : List.Forall₂ (fun _ p => ∃ before after, p.frame = .plain before after)
        links others)
      (nested : Fits filters innerGroups) (rest : Fits fs gs) :
      Fits (⟨connective, conditions, filters, links⟩ :: fs)
        (⟨connective, predicates ++ others, innerGroups⟩ :: gs)

def Shallow (path : Path) : Prop :=
  path = [] ∨ ∃ segment, path = [segment] ∧ '/' ∉ segment.toList

variable {root : Query.Entity} {name : String} {path : Path}

theorem tooDeep_eq_false (h : Shallow path) : tooDeep path = false := by
  rcases h with rfl | ⟨segment, rfl, h⟩
  · rfl
  · have : segment.toList.count '/' = 0 := List.count_eq_zero.mpr h
    simp [tooDeep, Path.text, this]

theorem Alike.mono {R S : α → β → Prop} {m : Compile α} {n : Compile β} (h : Alike R m n)
    (imp : ∀ a b, R a b → S a b) : Alike S m n := by
  have hs : Alike S (m >>= pure) (n >>= pure) := h.bind fun a b hab => alike_pure (imp a b hab)
  rwa [bind_pure, bind_pure] at hs

def Sure (P : α → Prop) (m : Compile α) : Prop :=
  Alike (fun a b => a = b ∧ P a) m m

theorem sure_findLink (sought parent : String) (path : Path) (collection : Bool)
    (links : List Link) :
    Sure (fun found => ∀ s, found = some s → s.site.path ≠ [])
      (findLink sought parent path collection links) := by
  cases links with
  | nil =>
    rw [findLink]
    exact alike_pure ⟨rfl, by simp⟩
  | cons link rest =>
    rw [findLink]
    refine alike_bind fun n => ?_
    dsimp only
    split
    · exact alike_pure ⟨rfl, by simp⟩
    · refine (sure_findLink sought _ _ _ (target n.route link).links).bind ?_
      rintro found _ ⟨rfl, h⟩
      cases found with
      | some s => exact alike_pure ⟨rfl, h⟩
      | none => exact sure_findLink sought parent path collection rest
termination_by Link.sizes links
decreasing_by
  · exact sizes_target_links_lt ..
  · exact sizes_rest_lt ..

theorem sure_subject (site : Site) (a : String) :
    Sure (fun place => place.path ≠ []) (subject root site (some a)) := by
  refine (sure_findLink a root.name [] false root.links).bind ?_
  rintro found _ ⟨rfl, h⟩
  cases found with
  | none => exact alike_reject _
  | some s =>
    dsimp only
    split
    · exact alike_reject _
    · exact alike_pure ⟨rfl, h s rfl⟩

def Parallel (near far : Path) (c : Condition) (p q : Predicate) : Prop :=
  p = q.moved near ∧ q.path? = some far ∧ q.isTest = c.isTextTest

theorem alike_likePredicate {near far : Path} {attr : Schema.Attribute} {c : Condition}
    {negated : Bool} {value : String} (form : Form.ofOperator c.operator = .like negated)
    (given : c.value = some value) :
    Alike (Parallel near far c)
      (likePredicate attr near ⟨near, attr.property, attr.isManaged⟩ negated value)
      (likePredicate attr far ⟨far, attr.property, attr.isManaged⟩ negated value) := by
  unfold likePredicate
  cases hp : Pattern.ofChars? value.toList with
  | none => exact alike_reject _
  | some pattern =>
    obtain ⟨text, leading, trailing⟩ := pattern
    have tests : c.isTextTest = (leading || trailing) := by
      simp [Condition.isTextTest, form, given, hp]
    dsimp only
    split
    · exact alike_bind fun literal => alike_pure ⟨rfl, rfl, tests.symm⟩
    all_goals exact alike_pure ⟨rfl, rfl, tests.symm⟩

theorem alike_predicate (near far : Path) (attr : Schema.Attribute) (c : Condition) :
    Alike (Parallel near far c) (predicate attr near c) (predicate attr far c) := by
  unfold predicate
  dsimp only
  cases form : Form.ofOperator c.operator with
  | compare comparison =>
    exact alike_bind fun operand => alike_pure ⟨rfl, rfl, by simp [Condition.isTextTest, form,
      Predicate.isTest]⟩
  | isNull negated =>
    exact alike_pure ⟨rfl, rfl, by simp [Condition.isTextTest, form, Predicate.isTest]⟩
  | like negated =>
    unfold requiredValue
    cases given : c.value with
    | none => exact alike_reject _
    | some value => exact alike_likePredicate form given
  | test negated kind =>
    exact alike_bind fun value => alike_pure ⟨rfl, rfl, by simp [Condition.isTextTest, form,
      Predicate.isTest]⟩
  | call function arity =>
    exact alike_bind fun values => alike_pure ⟨rfl, rfl, by simp [Condition.isTextTest, form,
      Predicate.isTest]⟩

theorem suits_frame {c : Condition} {p : Predicate} (own : c.entityName = none)
    (here : p.path? = some []) (kind : p.isTest = c.isTextTest) : Suits c p.frame := by
  rw [Predicate.frame, if_pos here]
  cases p <;> exact ⟨own, kind.symm⟩

/-- Wherever it stands, a condition has the same predicate, but for the path. -/
theorem alike_condition (root : Query.Entity) (name : String) (shallow : tooDeep path = false)
    (c : Condition) :
    Alike (fun p q => p = q.under path ∧ Suits c q.frame) (condition root ⟨name, path⟩ c)
      (condition root ⟨name, []⟩ c) := by
  unfold condition
  cases named : c.entityName with
  | none =>
    have reached : tooDeep [] = false := rfl
    simp only [subject, pure_bind, shallow, reached, Bool.false_eq_true, if_false]
    refine alike_bind fun record => ?_
    cases record.findAttribute? c.column with
    | none => exact alike_reject _
    | some attr =>
      refine (alike_predicate path [] attr c).mono ?_
      rintro p q ⟨rfl, here, kind⟩
      exact ⟨by rw [Predicate.under, if_pos here], suits_frame named here kind⟩
  | some a =>
    -- The link is sought from the root, so its own path stands there and not that of the place.
    refine (sure_subject ⟨name, path⟩ a).bind ?_
    rintro place _ ⟨rfl, away⟩
    split
    · exact alike_reject _
    · refine alike_bind fun record => ?_
      cases record.findAttribute? c.column with
      | none => exact alike_reject _
      | some attr =>
        refine (alike_predicate place.path place.path attr c).mono ?_
        rintro p q ⟨rfl, there, _⟩
        have elsewhere : q.path? ≠ some [] := by
          rw [there]
          exact fun h => away (Option.some.inj h)
        rw [Predicate.moved_self there, Predicate.under, if_neg elsewhere, Predicate.frame,
          if_neg elsewhere]
        exact ⟨rfl, by simp [Suits, named]⟩

theorem alike_conditions (shallow : tooDeep path = false) (cs : List Condition) :
    Alike (fun ps qs => ps = qs.map (Predicate.under path) ∧
        List.Forall₂ (fun c p => Suits c p.frame) cs qs)
      (cs.mapM (condition root ⟨name, path⟩)) (cs.mapM (condition root ⟨name, []⟩)) := by
  induction cs with
  | nil => exact alike_pure ⟨rfl, .nil⟩
  | cons c cs ih =>
    rw [List.mapM_cons, List.mapM_cons]
    refine (alike_condition root name shallow c).bind ?_
    rintro p q ⟨rfl, suits⟩
    refine ih.bind ?_
    rintro ps qs ⟨rfl, all⟩
    exact alike_pure ⟨rfl, .cons suits all⟩

/-- What is asked of related rows is the same anywhere. -/
theorem alike_relatedPredicates (links : List Link) :
    Alike (fun ps qs => ps = qs.map (Predicate.under path) ∧
        List.Forall₂ (fun _ p => ∃ before after, p.frame = .plain before after) links qs)
      (relatedPredicates root ⟨name, path⟩ links) (relatedPredicates root ⟨name, []⟩ links) := by
  induction links with
  | nil =>
    rw [relatedPredicates, relatedPredicates]
    exact alike_pure ⟨rfl, .nil⟩
  | cons link links ih =>
    rw [relatedPredicates, relatedPredicates]
    cases link.join.kind with
    | related quantifier negated =>
      refine alike_bind fun range => alike_bind fun n => ?_
      dsimp only
      split
      · exact alike_reject _
      · refine alike_bind fun body => ih.bind ?_
        rintro ps qs ⟨rfl, all⟩
        exact alike_pure ⟨rfl, .cons ⟨_, _, rfl⟩ all⟩
    | _ => exact alike_reject _

theorem alike_groups (root : Query.Entity) (name : String) (shallow : tooDeep path = false)
    (fs : List Filter) :
    Alike (fun gs hs => gs = Group.underAll path hs ∧ Fits fs hs) (groups root ⟨name, path⟩ fs)
      (groups root ⟨name, []⟩ fs) := by
  cases fs with
  | nil =>
    rw [groups, groups]
    exact alike_pure ⟨by rw [Group.underAll], .nil⟩
  | cons f fs =>
    obtain ⟨connective, conditions, filters, links⟩ := f
    rw [groups, groups]
    refine (alike_conditions shallow conditions).bind ?_
    rintro _ own ⟨rfl, suits⟩
    refine (alike_relatedPredicates links).bind ?_
    rintro _ related ⟨rfl, plain⟩
    refine (alike_groups root name shallow filters).bind ?_
    rintro _ inner ⟨rfl, nested⟩
    refine (alike_groups root name shallow fs).bind ?_
    rintro _ others ⟨rfl, rest⟩
    exact alike_pure ⟨by rw [Group.underAll, Group.under, List.map_append],
      .cons suits plain nested rest⟩
termination_by Filter.sizes fs
decreasing_by
  all_goals simp only [Filter.sizes, Filter.size]; omega

end Compile

namespace Inquiry

theorem Alike.runOnce_error {R : α → β → Prop} {x : Inquiry α} {y : Inquiry β} (h : x.Alike R y)
    {source : Source σ} {memo : Memo} {s s' : σ} {fault : Fault}
    (hy : y.runOnce source memo s = (.error fault, s')) :
    x.runOnce source memo s = (.error fault, s') := by
  obtain ⟨same, state⟩ := h.runOnce source memo s
  rw [hy] at same state
  cases hx : x.runOnce source memo s with
  | mk result s₁ =>
    rw [hx] at same state
    cases same
    exact congrArg _ state

theorem Alike.runOnce_ok {R : α → β → Prop} {x : Inquiry α} {y : Inquiry β} (h : x.Alike R y)
    {source : Source σ} {memo : Memo} {s s' : σ} {b : β}
    (hy : y.runOnce source memo s = (.ok b, s')) :
    ∃ a, x.runOnce source memo s = (.ok a, s') ∧ R a b := by
  obtain ⟨same, state⟩ := h.runOnce source memo s
  rw [hy] at same state
  cases hx : x.runOnce source memo s with
  | mk result s₁ =>
    rw [hx] at same state
    cases same with
    | ok related => exact ⟨_, congrArg _ state, related⟩

theorem Alike.answer {R : α → β → Prop} {x : Inquiry α} {y : Inquiry β} (h : x.Alike R y)
    (t : Snapshot) : SameOutcome R (x.answer t) (y.answer t) := by
  induction h with
  | done related => exact .ok related
  | fail => exact .error
  | @entity _ _ name _ ih =>
    simp only [Inquiry.answer]
    cases t.entity name with
    | ok e => exact ih e
    | error cause => exact .error
  | @typeCode _ _ code _ ih =>
    simp only [Inquiry.answer]
    cases t.typeCode code with
    | ok e => exact ih e
    | error cause => exact .error

end Inquiry

namespace Compile
open Query OData

variable {t : Snapshot} {root : Query.Entity} {name : String} {path : Path}

theorem Renders.eq_under {c : Condition} {p q : Predicate} (shallow : tooDeep path = false)
    (hp : Renders t root ⟨name, path⟩ c p) (hq : Renders t root ⟨name, []⟩ c q) :
    p = q.under path := by
  have same := (alike_condition root name shallow c {}).answer t
  have hp : (condition root ⟨name, path⟩ c {}).answer t = .ok (p, {}) := hp {}
  have hq : (condition root ⟨name, []⟩ c {}).answer t = .ok (q, {}) := hq {}
  rw [hp, hq] at same
  cases same with
  | ok related => exact related.1.1

/-- The filters ask for nothing but the values of columns, each of the row that they are about. -/
def Local (fs : List Filter) : Prop :=
  ∀ f, Below Filter.filters f fs → (∀ link ∈ f.links, link.join.kind.quantifier? = none) ∧
    ∀ c ∈ f.conditions, c.entityName = none ∧ c.comparedColumn? = none

theorem Local.own {f : Filter} {fs : List Filter} (h : Local (f :: fs)) :
    (∀ link ∈ f.links, link.join.kind.quantifier? = none) ∧
      ∀ c ∈ f.conditions, c.entityName = none ∧ c.comparedColumn? = none :=
  h f (.here List.mem_cons_self)

theorem Local.nested {f : Filter} {fs : List Filter} (h : Local (f :: fs)) : Local f.filters :=
  fun g hg => h g (.deeper List.mem_cons_self hg)

theorem Local.rest {f : Filter} {fs : List Filter} (h : Local (f :: fs)) : Local fs :=
  fun g hg => h g (hg.mono (List.subset_cons_self f fs))

theorem Local.nonEmpty {fs : List Filter} (h : Local fs) : Local (Filter.nonEmpty fs) :=
  fun g hg => h g (hg.mono (List.filter_subset_self fs))

/-- A condition on a range variable says of its row what the condition says without one. -/
theorem Shape.atom_under {attr : Schema.Attribute} {c : Condition} {q : Predicate}
    (h : Shape attr [] c q) (literal : c.comparedColumn? = none) (db : Database Row Value)
    (row r : Row) (scope : Scope Row) (range : String) :
    db.atom row (scope.set range r) (q.under [range]) = db.atom r .empty q := by
  have reached : db.reach row (scope.set range r) [range] = some r := by
    simp [Database.reach, Scope.set, Database.follow]
  have here : db.reach r .empty [] = some r := rfl
  cases h with
  | compareColumn form bare column =>
    simp [Condition.comparedColumn?, form, Form.isComparison, bare, column] at literal
  | compareLiteral form given text =>
    simp [Predicate.under, Predicate.path?, Predicate.moved, Database.atom, Database.read, reached,
      here, Database.operand]
  | likeText form text =>
    simp [Predicate.under, Predicate.path?, Predicate.moved, Database.atom, Database.read, reached,
      here, Database.operand]
  | isNull form =>
    simp [Predicate.under, Predicate.path?, Predicate.moved, Database.atom, Database.read, reached,
      here]
  | likeTest form kind text =>
    simp [Predicate.under, Predicate.path?, Predicate.moved, Database.atom, Database.read, reached,
      here]
  | test form text =>
    simp [Predicate.under, Predicate.path?, Predicate.moved, Database.atom, Database.read, reached,
      here]
  | call form arguments =>
    simp [Predicate.under, Predicate.path?, Predicate.moved, Database.atom, reached, here]

theorem atoms_eq {range : String} {cs : List Condition} {ps qs : List Predicate}
    (hp : List.Forall₂ (Renders t root ⟨name, [range]⟩) cs ps)
    (hq : List.Forall₂ (Renders t root ⟨name, []⟩) cs qs)
    (literal : ∀ c ∈ cs, c.entityName = none ∧ c.comparedColumn? = none) (db : Database Row Value)
    (row r : Row) (scope : Scope Row) :
    ps.map ((db.world row).atom (scope.set range r)) = qs.map ((db.world r).atom .empty) := by
  induction hp generalizing qs with
  | nil =>
    cases hq
    rfl
  | @cons c p cs ps hp _ ih =>
    cases hq with
    | @cons _ q _ qs hq rest =>
      have ⟨own, bare⟩ := literal c List.mem_cons_self
      obtain ⟨_, _, _, _, _, shape⟩ := hq.own_shape own
      have same : (db.world row).atom (scope.set range r) p = (db.world r).atom .empty q := by
        rw [hp.eq_under (hp.own_shape own).1 hq]
        exact shape.atom_under bare db row r scope range
      rw [List.map_cons, List.map_cons, same,
        ih rest fun c hc => literal c (List.mem_cons_of_mem _ hc)]

theorem RelatedOf.eq_nil {site : Site} {v v' : Variables} {links : List Link}
    {ps : List Predicate} (h : RelatedOf t root site v links ps v')
    (none : ∀ link ∈ links, link.join.kind.quantifier? = none) : ps = [] := by
  cases h with
  | nil => rfl
  | cons kind =>
    have := none _ List.mem_cons_self
    rw [kind] at this
    cases this

/-- The groups of a range variable say of its row what the groups without one say. -/
theorem GroupsOf.values_under {range : String} {v v' w w' : Variables} {fs : List Filter}
    {gs hs : List Group} (plain : Local fs) (hg : GroupsOf t root ⟨name, [range]⟩ v fs gs v')
    (hh : GroupsOf t root ⟨name, []⟩ w fs hs w') (db : Database Row Value) (row r : Row)
    (scope : Scope Row) :
    Group.values (db.world row) true (scope.set range r) gs =
      Group.values (db.world r) true .empty hs := by
  match fs with
  | [] =>
    cases hg
    cases hh
    rw [Group.values, Group.values]
  | ⟨connective, conditions, filters, links⟩ :: fs =>
    cases hg with
    | cons own related nested rest =>
      cases hh with
      | cons own' related' nested' rest' =>
        have inner := GroupsOf.values_under plain.nested nested nested' db row r scope
        have others := GroupsOf.values_under plain.rest rest rest' db row r scope
        have atoms := atoms_eq own own' plain.own.2 db row r scope
        cases related.eq_nil plain.own.1
        cases related'.eq_nil plain.own.1
        rw [Group.values_cons, Group.values_cons, Group.value?, Group.value?, List.append_nil,
          List.append_nil, values_of_renders own, values_of_renders own', atoms, inner, others]
termination_by Filter.sizes fs
decreasing_by
  all_goals simp only [Filter.sizes, Filter.size]; omega

/-- Against any source, filters behind a path of at most one segment fail as they do without it, or
come to the same groups moved behind the path. -/
theorem runOnce_filterGroups (source : Source σ) (memo : Inquiry.Memo) (s : σ) (v : Variables)
    (root : Query.Entity) (name : String) (fs : List Filter) :
    (∃ fault s', ∀ path, Shallow path →
      (filterGroups root ⟨name, path⟩ fs v).runOnce source memo s = (.error fault, s')) ∨
    ∃ gs v' s', Fits (Filter.nonEmpty fs) gs ∧ ∀ path, Shallow path →
      (filterGroups root ⟨name, path⟩ fs v).runOnce source memo s =
        (.ok (Group.underAll path gs, v'), s') := by
  have same (path : Path) (shallow : Shallow path) :=
    alike_groups root name (tooDeep_eq_false shallow) (Filter.nonEmpty fs) v
  cases here : (filterGroups root ⟨name, []⟩ fs v).runOnce source memo s with
  | mk result s' =>
    cases result with
    | error fault =>
      exact Or.inl ⟨fault, s', fun path shallow => (same path shallow).runOnce_error here⟩
    | ok outcome =>
      obtain ⟨gs, v'⟩ := outcome
      obtain ⟨_, _, ⟨_, fits⟩, _⟩ := (same [] (Or.inl rfl)).runOnce_ok here
      refine Or.inr ⟨gs, v', s', fits, fun path shallow => ?_⟩
      obtain ⟨⟨hs, w⟩, run, ⟨moved, _⟩, counted⟩ := (same path shallow).runOnce_ok here
      cases moved
      cases counted
      exact run

theorem JoinsOf.eq_nil {parent : String} {v v' : Variables} {ls : List Link} {gs : List Group}
    (h : JoinsOf t root parent path v ls gs v') (none : ∀ link ∈ ls, link.join.kind ≠ .inner) :
    gs = [] := by
  induction h with
  | nil => rfl
  | other _ _ ih => exact ih fun link member => none link (List.mem_cons_of_mem _ member)
  | toMany kind => exact absurd kind (none _ List.mem_cons_self)
  | toOne kind => exact absurd kind (none _ List.mem_cons_self)

/-- A row that has its key is there, so a body with nothing else to ask holds of it. -/
theorem holdsAll_orPresent {db : Database Row Value} {row r : Row} {range key : String}
    (keyed : (db.value r key).isSome) (scope : Scope Row) (gs : List Group) :
    (db.world row).holdsAll (scope.set range r) (orPresent gs [range] key) =
      (db.world row).holdsAll (scope.set range r) gs := by
  have written := Group.isSome_conjunction? (db.world row) true (scope.set range r) gs
  unfold orPresent
  split
  · rfl
  · rename_i bare
    have silent : Group.values (db.world row) true (scope.set range r) gs = [] := by
      simpa [bare] using written
    rw [present, World.holdsAll_single _ _ isNull_text_ne, World.holdsAll, silent, World.holds,
      Predicate.value]
    · simp [Database.world, Database.atom, Database.read, Database.reach, Scope.set,
        Database.follow, Option.isNone_eq_false_iff.mpr keyed]
    · simp

/-- An inner link to many rows has its filters compiled twice, for the expanded property and for a
range variable. -/
theorem twice_compiled {parent : String} {link : Link} {n : Navigation} {links : List Link}
    {v v' w w' : Variables} {es : List Expand} {gs : List Group}
    (kind : link.join.kind = .inner) (content : link.hasContent = true)
    (resolves : Resolves t parent link n) (many : n.isCollection = true)
    (expanded : Gives t (expands root parent (link :: links)) v es v')
    (joined : Gives t (innerJoins root parent path (link :: links)) w gs w') :
    ∃ e es' v₁ record own w₁ inner w₂ gs', es = e :: es' ∧ e.property = n.property ∧
      GroupsOf t root ⟨(target n.route link).name, []⟩ v
        (Filter.nonEmpty (target n.route link).filters) e.filter v₁ ∧
      t.entity (target n.route link).name = .ok record ∧
      GroupsOf t root ⟨(target n.route link).name, [w.join]⟩ w.afterJoin
        (Filter.nonEmpty (target n.route link).filters) own w₁ ∧
      JoinsOf t root (target n.route link).name [w.join] w₁ (target n.route link).links inner w₂ ∧
      gs = .single (.related false path n.property .any w.join
        (orPresent own [w.join] record.primaryKey ++ inner)) :: gs' := by
  cases expandsOf_of_gives expanded with
  | skip _ bare => simp [content] at bare
  | expand _ _ resolves' _ _ filter =>
    cases joinsOf_of_gives joined with
    | other other => exact absurd kind other
    | toOne _ resolves'' one => simp [resolves''.unique resolves, many] at one
    | toMany _ resolves'' _ record own nested =>
      cases resolves'.unique resolves
      cases resolves''.unique resolves
      rw [InlineOf, if_pos (Or.inr many)] at filter
      exact ⟨_, _, _, _, _, _, _, _, _, rfl, rfl, filter, record, own, nested, rfl⟩

/-- Filters mean the same wherever they are compiled. Behind a path of at most one segment they fail
as they do without it, or come to the same groups, where each predicate has the path in one place of
its text or, if its condition names a link, in none. So the filters of an inner link to many rows,
which are compiled inside the expanded property and again for a range variable, pass the same rows,
as long as no condition names a link or compares with another column. The body of the range variable
asks for that and for the inner links below, of which it says nothing if there are none. -/
theorem filters_same_behind_paths (root : Query.Entity) :
    (∀ {σ : Type} (source : Source σ) (memo : Inquiry.Memo) (s : σ) (v : Variables) (name : String)
        (fs : List Filter),
      (∃ fault s', ∀ path, Shallow path →
        (filterGroups root ⟨name, path⟩ fs v).runOnce source memo s = (.error fault, s')) ∨
      ∃ gs v' s', Fits (Filter.nonEmpty fs) gs ∧ ∀ path, Shallow path →
        (filterGroups root ⟨name, path⟩ fs v).runOnce source memo s =
          (.ok (Group.underAll path gs, v'), s')) ∧
    (∀ (p : Predicate) (path : Path), (p.under path).text = p.frame.fill path.text) ∧
    ∀ (t : Snapshot) (parent : String) (path : Path) (link : Link) (n : Navigation)
        (links : List Link) (v v' w w' : Variables) (es : List Expand) (gs : List Group),
      link.join.kind = .inner → link.hasContent = true → Resolves t parent link n →
      n.isCollection = true → Local (target n.route link).filters →
      Gives t (expands root parent (link :: links)) v es v' →
      Gives t (innerJoins root parent path (link :: links)) w gs w' →
      ∃ e es' v₁ record own w₁ inner w₂ gs', es = e :: es' ∧ e.property = n.property ∧
        GroupsOf t root ⟨(target n.route link).name, []⟩ v
          (Filter.nonEmpty (target n.route link).filters) e.filter v₁ ∧
        t.entity (target n.route link).name = .ok record ∧
        GroupsOf t root ⟨(target n.route link).name, [w.join]⟩ w.afterJoin
          (Filter.nonEmpty (target n.route link).filters) own w₁ ∧
        JoinsOf t root (target n.route link).name [w.join] w₁ (target n.route link).links inner
          w₂ ∧
        ((∀ below ∈ (target n.route link).links, below.join.kind ≠ .inner) → inner = []) ∧
        gs = .single (.related false path n.property .any w.join
          (orPresent own [w.join] record.primaryKey ++ inner)) :: gs' ∧
        ∀ {Row Value : Type} (db : Database Row Value) (row r : Row) (scope : Scope Row),
          (db.world row).holdsAll (scope.set w.join r) own =
              (db.world r).holdsAll .empty e.filter ∧
            ((db.value r record.primaryKey).isSome →
              (db.world row).holdsAll (scope.set w.join r)
                  (orPresent own [w.join] record.primaryKey ++ inner) =
                ((db.world r).holdsAll .empty e.filter &&
                  (db.world row).holdsAll (scope.set w.join r) inner)) := by
  refine ⟨fun source memo s v name fs => runOnce_filterGroups source memo s v root name fs,
    fun p path => p.text_under path, ?_⟩
  intro t parent path link n links v v' w w' es gs kind content resolves many plain expanded joined
  obtain ⟨e, es', v₁, record, own, w₁, inner, w₂, gs', rfl, named, inline, found, ranged, nested,
    rfl⟩ := twice_compiled kind content resolves many expanded joined
  refine ⟨e, es', v₁, record, own, w₁, inner, w₂, gs', rfl, named, inline, found, ranged, nested,
    nested.eq_nil, rfl, ?_⟩
  intro Row Value db row r scope
  have same : (db.world row).holdsAll (scope.set w.join r) own =
      (db.world r).holdsAll .empty e.filter := by
    rw [World.holdsAll, World.holdsAll, ranged.values_under plain.nonEmpty inline]
  refine ⟨same, ?_⟩
  intro keyed
  rw [World.holdsAll_append, holdsAll_orPresent keyed, same]

def employeesWhere (c : Condition) : Link :=
  { employees with filters := [{ conditions := [c] }] }

def firm : Database Bool Unit where
  value contact _ := if contact then some () else none
  managed _ _ := none
  single contact name := if !contact && name == "primarycontactid" then some true else none
  many contact _ := if contact then [] else [true]
  literal _ := ()
  compare comparison _ _ := comparison == .eq
  test _ _ _ := true
  call _ _ _ _ := true

def startsWithA : Condition :=
  { column := "firstname", operator := .beginsWith, value := some "A" }

/-- Both filters on the first names of contacts pass the contact of the firm, or none does. The
range variable has no other groups than those of its own filters. -/
theorem filters_same_behind_paths_startsWithA :
    Gives Catalog.sample.snapshot (expands { name := "account" } "account"
        [employeesWhere startsWithA]) {}
        [{ property := "contact_customer_accounts",
           filter := [.single (.test false .startsWith [] "firstname" "A")] }] {} ∧
      Gives Catalog.sample.snapshot (innerJoins { name := "account" } "account" []
        [employeesWhere startsWithA]) {}
        [.single (.related false [] "contact_customer_accounts" .any "o1"
          [.single (.test false .startsWith ["o1"] "firstname" "A")])] { joins := 1 } ∧
      (∃ own w inner w', GroupsOf Catalog.sample.snapshot { name := "account" }
          ⟨"contact", ["o1"]⟩ { joins := 1 } [{ conditions := [startsWithA] }] own w ∧
        JoinsOf Catalog.sample.snapshot { name := "account" } "contact" ["o1"] w [] inner w' ∧
        own = [.single (.test false .startsWith ["o1"] "firstname" "A")] ∧ inner = []) ∧
      (firm.world false).holdsAll (Scope.empty.set "o1" true)
          [.single (.test false .startsWith ["o1"] "firstname" "A")] =
        (firm.world true).holdsAll .empty
          [.single (.test false .startsWith [] "firstname" "A")] := by
  have expanded : Gives Catalog.sample.snapshot (expands { name := "account" } "account"
      [employeesWhere startsWithA]) {}
      [{ property := "contact_customer_accounts",
         filter := [.single (.test false .startsWith [] "firstname" "A")] }] {} := by
    with_unfolding_all rfl
  have joined : Gives Catalog.sample.snapshot (innerJoins { name := "account" } "account" []
      [employeesWhere startsWithA]) {}
      [.single (.related false [] "contact_customer_accounts" .any "o1"
        [.single (.test false .startsWith ["o1"] "firstname" "A")])] { joins := 1 } := by
    with_unfolding_all rfl
  have plain : Local (employeesWhere startsWithA).filters := by
    intro f hf
    rw [hf.eq_of_leaf rfl]
    decide
  obtain ⟨e, es, _, record, own, w, inner, w', gs, he, _, _, _, ranged, below, alone, hg, same⟩ :=
    (filters_same_behind_paths { name := "account" }).2.2 _ _ _ _
      ⟨"contact_customer_accounts", .toMany⟩ _ _ _ _ _ _ _ rfl rfl (by decide +kernel) rfl plain
      expanded joined
  have first : ({} : Variables).join = "o1" := by decide
  have bare : inner = [] := alone nofun
  have written : own = [.single (.test false .startsWith ["o1"] "firstname" "A")] := by
    have joins := congrArg Group.predicates (List.cons.inj hg).1
    obtain ⟨_, _, _, _, _, body⟩ := Predicate.related.inj (List.cons.inj joins).1
    rw [bare, List.append_nil, orPresent] at body
    split at body
    · exact body.symm
    · cases body
  cases (List.cons.inj he).1
  rw [first] at ranged below same
  refine ⟨expanded, joined, ⟨own, w, inner, w', ranged, below, written, bare⟩, ?_⟩
  rw [← written]
  exact (same firm false true .empty).1

def staffed (c : Condition) : Fetch :=
  { entity := some
      { name := "account",
        links := [employeesWhere c,
          { mainContact with join := { mainContact.join with kind := .outer } }] } }

def namedByNumber : Condition :=
  { column := "firstname", operator := .eq, valueOf := some "contactid" }

def mainIsAnn : Condition :=
  { column := "firstname", operator := .eq, value := some "Ann", entityName := some "main" }

/-- A column that a condition compares with, and a link that it names, are written alike in both
filters of an inner link to many rows. There they are not the same: inside the expanded property
they belong to the contact, in the condition on the account they belong to the account. -/
theorem column_and_named_link_differ :
    (∃ r, (request (staffed namedByNumber)).answer Catalog.sample.snapshot = .ok r ∧
        r.target.expand = [{
          property := "contact_customer_accounts",
          filter := [.single (.compare ⟨[], "firstname", false⟩ .eq (.column "contactid"))] }] ∧
        r.target.filter = [.single (.related false [] "contact_customer_accounts" .any "o1"
          [.single (.compare ⟨["o1"], "firstname", false⟩ .eq (.column "contactid"))])]) ∧
      (firm.world true).holdsAll .empty
        [.single (.compare ⟨[], "firstname", false⟩ .eq (.column "contactid"))] = true ∧
      (firm.world false).holdsAll (Scope.empty.set "o1" true)
        [.single (.compare ⟨["o1"], "firstname", false⟩ .eq (.column "contactid"))] = false ∧
      (∃ r, (request (staffed mainIsAnn)).answer Catalog.sample.snapshot = .ok r ∧
        r.target.expand = [{
          property := "contact_customer_accounts",
          filter := [.single
            (.compare ⟨["primarycontactid"], "firstname", false⟩ .eq (.literal "'Ann'"))] }] ∧
        r.target.filter = [.single (.related false [] "contact_customer_accounts" .any "o1"
          [.single (.compare ⟨["primarycontactid"], "firstname", false⟩ .eq
            (.literal "'Ann'"))])]) ∧
      (firm.world true).holdsAll .empty [.single
        (.compare ⟨["primarycontactid"], "firstname", false⟩ .eq (.literal "'Ann'"))] = false ∧
      (firm.world false).holdsAll (Scope.empty.set "o1" true) [.single
        (.compare ⟨["primarycontactid"], "firstname", false⟩ .eq (.literal "'Ann'"))] = true := by
  refine ⟨⟨_, by with_unfolding_all rfl, rfl, rfl⟩, ?_, ?_,
    ⟨_, by with_unfolding_all rfl, rfl, rfl⟩, ?_, ?_⟩
  all_goals decide +kernel

end Compile

end FetchOData
