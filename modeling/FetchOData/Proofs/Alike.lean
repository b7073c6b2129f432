import FetchOData.WebQuery

namespace FetchOData

namespace Inquiry

inductive Alike (R : α → β → Prop) : Inquiry α → Inquiry β → Prop where
  | done (related : R a b) : Alike R (.done a) (.done b)
  | fail : Alike R (.fail fault) (.fail fault)
  | entity (next : ∀ e, Alike R (f e) (g e)) : Alike R (.entity name f) (.entity name g)
  | typeCode (next : ∀ e, Alike R (f e) (g e)) : Alike R (.typeCode code f) (.typeCode code g)

theorem Alike.refl {R : α → α → Prop} (hR : ∀ a, R a a) (x : Inquiry α) : x.Alike R x := by
  induction x with
  | done value => exact .done (hR value)
  | fail fault => exact .fail
  | entity name next ih => exact .entity ih
  | typeCode code next ih => exact .typeCode ih

theorem Alike.bind {R : α → β → Prop} {S : γ → δ → Prop} {x : Inquiry α} {y : Inquiry β}
    {f : α → Inquiry γ} {g : β → Inquiry δ} (h : x.Alike R y)
    (next : ∀ a b, R a b → (f a).Alike S (g b)) : (x.bind f).Alike S (y.bind g) := by
  induction h with
  | done related => exact next _ _ related
  | fail => exact .fail
  | entity _ ih => exact .entity ih
  | typeCode _ ih => exact .typeCode ih

inductive SameOutcome (R : α → β → Prop) : Except Fault α → Except Fault β → Prop where
  | ok (related : R a b) : SameOutcome R (.ok a) (.ok b)
  | error : SameOutcome R (.error fault) (.error fault)

theorem Alike.runOnce {R : α → β → Prop} {x : Inquiry α} {y : Inquiry β} (h : x.Alike R y)
    (source : Source σ) (memo : Memo) (s : σ) :
    SameOutcome R (x.runOnce source memo s).1 (y.runOnce source memo s).1 ∧
      (x.runOnce source memo s).2 = (y.runOnce source memo s).2 := by
  induction h generalizing memo s with
  | done related => exact ⟨.ok related, rfl⟩
  | fail => exact ⟨.error, rfl⟩
  | entity _ ih =>
    simp only [Inquiry.runOnce]
    split
    · exact ih _ memo s
    · split
      · exact ih _ _ _
      · exact ⟨.error, rfl⟩
  | typeCode _ ih =>
    simp only [Inquiry.runOnce]
    split
    · exact ih _ _ _
    · exact ⟨.error, rfl⟩

end Inquiry

namespace Compile

/-- Compilations that are alike hand out the same range variables as well. -/
def Alike (R : α → β → Prop) (m : Compile α) (n : Compile β) : Prop :=
  ∀ v, (m v).Alike (fun p q => R p.1 q.1 ∧ p.2 = q.2) (n v)

theorem Alike.refl (m : Compile α) : Alike Eq m m :=
  fun v => Inquiry.Alike.refl (fun _ => ⟨rfl, rfl⟩) (m v)

theorem alike_pure {R : α → β → Prop} {a : α} {b : β} (h : R a b) :
    Alike R (pure a) (pure b) :=
  fun _ => .done ⟨h, rfl⟩

theorem alike_reject {R : α → β → Prop} (fault : Fault) : Alike R (reject fault) (reject fault) :=
  fun _ => .fail

theorem Alike.bind {R : α → β → Prop} {S : γ → δ → Prop} {m : Compile α} {n : Compile β}
    {f : α → Compile γ} {g : β → Compile δ} (h : Alike R m n)
    (next : ∀ a b, R a b → Alike S (f a) (g b)) : Alike S (m >>= f) (n >>= g) := by
  intro v
  apply Inquiry.Alike.bind (h v)
  rintro ⟨a, w⟩ ⟨b, _⟩ ⟨hab, rfl⟩
  exact next a b hab w

/-- The same first step may be followed by steps that are alike. -/
theorem alike_bind {S : γ → δ → Prop} {m : Compile α} {f : α → Compile γ} {g : α → Compile δ}
    (next : ∀ a, Alike S (f a) (g a)) : Alike S (m >>= f) (m >>= g) :=
  (Alike.refl m).bind fun a _ h => h ▸ next a

theorem Alike.map_left {R : α → β → Prop} {S : γ → β → Prop} {m : Compile α} {n : Compile β}
    {f : α → γ} (h : Alike R m n) (next : ∀ a b, R a b → S (f a) b) :
    Alike S (m >>= fun a => pure (f a)) n := by
  rw [← bind_pure n]
  exact h.bind fun a b hab => alike_pure (next a b hab)

theorem Alike.run' {R : α → β → Prop} {m : Compile α} {n : Compile β} (h : Alike R m n)
    (v : Variables) : Inquiry.Alike R (StateT.run' m v) (StateT.run' n v) :=
  (h v).bind fun _ _ hab => .done hab.1

end Compile

/-- Fetches whose requests are alike up to their URLs have the same web query, and leave the source
in the same state. -/
theorem WebQuery.ofFetch_eq_of_alike {fetch fetch' : Query.Fetch} {base : String}
    (h : (Compile.request fetch).Alike (fun r r' => r.url base = r'.url base)
      (Compile.request fetch')) (count : fetch.count = fetch'.count) (source : Source σ) (s : σ) :
    WebQuery.ofFetch source base fetch s = WebQuery.ofFetch source base fetch' s := by
  obtain ⟨same, state⟩ := h.runOnce source {} s
  have web (r r' : OData.Request) (hu : r.url base = r'.url base) :
      ofRequest base fetch r = ofRequest base fetch' r' := by
    simp only [ofRequest, preferences, hu, count]
  unfold WebQuery.ofFetch
  split
  · cases hx : (Compile.request fetch).runOnce source {} s with
    | mk answer s₁ =>
      cases hy : (Compile.request fetch').runOnce source {} s with
      | mk answer' s₂ =>
        simp only [hx, hy] at same state
        cases same with
        | ok related => simp only [Except.map, web _ _ related, state]
        | error => simp only [Except.map, state]
  · rfl

end FetchOData
