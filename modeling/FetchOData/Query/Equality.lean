import FetchOData.Query.Tree

namespace FetchOData.Query

mutual
def Filter.decEq : (f g : Filter) → Decidable (f = g)
  | ⟨c₁, cs₁, fs₁, ls₁⟩, ⟨c₂, cs₂, fs₂, ls₂⟩ =>
    if hc : c₁ = c₂ ∧ cs₁ = cs₂ then
      match Filter.decEqList fs₁ fs₂, Link.decEqList ls₁ ls₂ with
      | isTrue hf, isTrue hl => isTrue (by simp [hc, hf, hl])
      | isFalse hf, _ => isFalse (by simp [hf])
      | _, isFalse hl => isFalse (by simp [hl])
    else isFalse fun h => hc ⟨congrArg Filter.connective h, congrArg Filter.conditions h⟩
def Filter.decEqList : (fs gs : List Filter) → Decidable (fs = gs)
  | [], [] => isTrue rfl
  | [], _ :: _ => isFalse (by simp)
  | _ :: _, [] => isFalse (by simp)
  | f :: fs, g :: gs =>
    match Filter.decEq f g, Filter.decEqList fs gs with
    | isTrue h, isTrue hs => isTrue (by simp [h, hs])
    | isFalse h, _ => isFalse (by simp [h])
    | _, isFalse hs => isFalse (by simp [hs])
def Link.decEq : (l m : Link) → Decidable (l = m)
  | ⟨j₁, s₁, fs₁, ls₁⟩, ⟨j₂, s₂, fs₂, ls₂⟩ =>
    if hj : j₁ = j₂ ∧ s₁ = s₂ then
      match Filter.decEqList fs₁ fs₂, Link.decEqList ls₁ ls₂ with
      | isTrue hf, isTrue hl => isTrue (by simp [hj, hf, hl])
      | isFalse hf, _ => isFalse (by simp [hf])
      | _, isFalse hl => isFalse (by simp [hl])
    else isFalse fun h => hj ⟨congrArg Link.join h, congrArg Link.selection h⟩
def Link.decEqList : (ls ms : List Link) → Decidable (ls = ms)
  | [], [] => isTrue rfl
  | [], _ :: _ => isFalse (by simp)
  | _ :: _, [] => isFalse (by simp)
  | l :: ls, m :: ms =>
    match Link.decEq l m, Link.decEqList ls ms with
    | isTrue h, isTrue hs => isTrue (by simp [h, hs])
    | isFalse h, _ => isFalse (by simp [h])
    | _, isFalse hs => isFalse (by simp [hs])
end

instance : DecidableEq Filter := Filter.decEq

instance : DecidableEq Link := Link.decEq

deriving instance DecidableEq for Entity

deriving instance DecidableEq for Fetch

end FetchOData.Query
