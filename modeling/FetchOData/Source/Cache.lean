import Std.Data.TreeMap
import FetchOData.Source.Basic

namespace FetchOData

/-- The records that a source has given, by name and by type code. -/
structure Cache (σ : Type) where
  inner : σ
  byName : Std.TreeMap String Schema.Entity := {}
  byCode : Std.TreeMap Int32 Schema.Entity := {}

namespace Cache

/-- The number of entities held by name. -/
def size (c : Cache σ) : Nat :=
  c.byName.size

def isEmpty (c : Cache σ) : Bool :=
  c.byName.isEmpty && c.byCode.isEmpty

/-- Forgets every record; the source keeps its state. -/
def clear (c : Cache σ) : Cache σ :=
  { inner := c.inner }

/-- A record is found by its name and, if it has a type code, by that as well. -/
def remember (c : Cache σ) (e : Schema.Entity) : Cache σ :=
  { c with
    byName := c.byName.insert e.name e
    byCode := match e.typeCode with
      | some code => c.byCode.insert code e
      | none => c.byCode }

/-- What the source has answered is remembered if it is a record; a failure is not. -/
def receive (c : Cache σ) : Found × σ → Found × Cache σ
  | (.ok e, s) => (.ok e, { c with inner := s }.remember e)
  | (.error fault, s) => (.error fault, { c with inner := s })

/-- Asks the source only for what the cache does not hold. -/
def source (inner : Source σ) : Source (Cache σ) where
  connected c := inner.connected c.inner
  entity name c :=
    match c.byName[name]? with
    | some e => (.ok e, c)
    | none => c.receive (inner.entity name c.inner)
  typeCode code c :=
    match c.byCode[code]? with
    | some e => (.ok e, c)
    | none => c.receive (inner.typeCode code c.inner)

/-- The source behind the cache, which is left alone. -/
def bypass (inner : Source σ) : Source (Cache σ) :=
  inner.within Cache.inner fun s c => { c with inner := s }

end Cache

end FetchOData
