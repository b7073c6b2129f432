import Std.Data.TreeMap
import FetchOData.Source.Basic

namespace FetchOData

/-- A lookup that finds nothing ends the computation, so only records are passed on. -/
inductive Inquiry (α : Type) where
  | done (value : α)
  | fail (fault : Fault)
  | entity (name : String) (next : Schema.Entity → Inquiry α)
  | typeCode (code : Int32) (next : Schema.Entity → Inquiry α)

namespace Inquiry

def bind : Inquiry α → (α → Inquiry β) → Inquiry β
  | done value, f => f value
  | fail fault, _ => fail fault
  | entity name next, f => entity name fun e => (next e).bind f
  | typeCode code next, f => typeCode code fun e => (next e).bind f

instance : Monad Inquiry where
  pure := done
  bind := bind

theorem bind_done (x : Inquiry α) : x.bind done = x := by
  induction x with
  | done => rfl
  | fail => rfl
  | entity _ _ ih => simp [bind, ih]
  | typeCode _ _ ih => simp [bind, ih]

theorem bind_bind (x : Inquiry α) (f : α → Inquiry β) (g : β → Inquiry γ) :
    (x.bind f).bind g = x.bind fun a => (f a).bind g := by
  induction x with
  | done => rfl
  | fail => rfl
  | entity _ _ ih => simp [bind, ih]
  | typeCode _ _ ih => simp [bind, ih]

instance : LawfulMonad Inquiry :=
  LawfulMonad.mk' Inquiry (fun x => bind_done x) (fun _ _ => rfl) fun x f g => bind_bind x f g

/-- Runs against a source that is asked every time. -/
def run (source : Source σ) : Inquiry α → StateM σ (Except Fault α)
  | done value, s => (.ok value, s)
  | fail fault, s => (.error fault, s)
  | entity name next, s =>
    match source.entity name s with
    | (.ok e, s) => run source (next e) s
    | (.error cause, s) => (.error (.schema cause), s)
  | typeCode code next, s =>
    match source.typeCode code s with
    | (.ok e, s) => run source (next e) s
    | (.error cause, s) => (.error (.schema cause), s)

/-- The records that a run has been told, by the name they were asked for. -/
abbrev Memo := Std.TreeMap String Schema.Entity

/-- Runs against a source that is asked for each entity name once. -/
def runOnce (source : Source σ) (memo : Memo) : Inquiry α → StateM σ (Except Fault α)
  | done value, s => (.ok value, s)
  | fail fault, s => (.error fault, s)
  | entity name next, s =>
    match memo[name]? with
    | some e => runOnce source memo (next e) s
    | none =>
      match source.entity name s with
      | (.ok e, s) => runOnce source (memo.insert name e) (next e) s
      | (.error cause, s) => (.error (.schema cause), s)
  | typeCode code next, s =>
    match source.typeCode code s with
    | (.ok e, s) => runOnce source memo (next e) s
    | (.error cause, s) => (.error (.schema cause), s)

end Inquiry

/-- How many range variables are in use. -/
structure Variables where
  lambdas : Nat := 0
  joins : Nat := 0

/-- Compilation asks for schema records and hands out range variables. -/
abbrev Compile := StateT Variables Inquiry

namespace Compile

def reject (fault : Fault) : Compile α := fun _ => .fail fault

def entity (name : String) : Compile Schema.Entity := fun v => .entity name fun e => .done (e, v)

def typeCode (code : Int32) : Compile Schema.Entity :=
  fun v => .typeCode code fun e => .done (e, v)

def ofExcept (toFault : ε → Fault) : Except ε α → Compile α
  | .ok value => pure value
  | .error cause => reject (toFault cause)

/-- A variable for the rows of a condition on related rows. -/
def freshLambda : Compile String := fun v =>
  .done ("x" ++ Number.integerText (v.lambdas + 1), { v with lambdas := v.lambdas + 1 })

/-- A variable for the rows of an inner join. -/
def freshJoin : Compile String := fun v =>
  .done ("o" ++ Number.integerText (v.joins + 1), { v with joins := v.joins + 1 })

end Compile

end FetchOData
