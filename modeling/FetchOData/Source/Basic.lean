import FetchOData.Schema.Entity

namespace FetchOData

abbrev Found := Except SchemaFault Schema.Entity

/-- Where schema records come from. A lookup may leave the source in another state, whether or not
it finds a record. -/
structure Source (σ : Type) where
  connected : σ → Bool
  entity : String → StateM σ Found
  typeCode : Int32 → StateM σ Found

/-- The source as part of a larger state. -/
def Source.within (source : Source σ) (get : τ → σ) (set : σ → τ → τ) : Source τ where
  connected t := source.connected (get t)
  entity name t := let (found, s) := source.entity name (get t); (found, set s t)
  typeCode code t := let (found, s) := source.typeCode code (get t); (found, set s t)

/-- A state that counts the lookups which reach it. -/
structure Metered (σ : Type) where
  inner : σ
  lookups : Nat := 0

/-- Counts the lookups that fail as well. -/
def Source.metered (source : Source σ) : Source (Metered σ) where
  connected m := source.connected m.inner
  entity name m := let (found, s) := source.entity name m.inner; (found, ⟨s, m.lookups + 1⟩)
  typeCode code m := let (found, s) := source.typeCode code m.inner; (found, ⟨s, m.lookups + 1⟩)

end FetchOData
