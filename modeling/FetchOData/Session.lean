import FetchOData.Source.Catalog
import FetchOData.Source.Cache
import FetchOData.WebQuery

namespace FetchOData

/-- A metered catalog behind a cache. -/
abbrev Store := Cache (Metered Catalog)

structure Session where
  store : Store
  base : String
  /-- Whether lookups go through the cache. -/
  cached : Bool := true

namespace Session

inductive Step where
  | entity (name : String)
  | typeCode (code : Int32)
  | connected
  | setConnected (value : Bool)
  | insert (record : Schema.Entity)
  | clear
  | convert (fetch : Query.Fetch)
  | convertToUrl (fetch : Query.Fetch)

inductive Outcome where
  | done
  | connected (value : Bool)
  | record (found : Found)
  | query (result : Except Fault WebQuery)
  | url (result : Except Fault String)

def ofCatalog (catalog : Catalog) (base : String) (cached : Bool) : Session :=
  { store := { inner := { inner := catalog } }, base, cached }

def source (cached : Bool) : Source Store :=
  if cached then Cache.source Catalog.source.metered else Cache.bypass Catalog.source.metered

def catalog (s : Session) : Catalog :=
  s.store.inner.inner

def lookups (s : Session) : Nat :=
  s.store.inner.lookups

/-- Changes the catalog behind the cache, which is not told. -/
def modifyCatalog (s : Session) (f : Catalog → Catalog) : Session :=
  { s with store := { s.store with inner := { s.store.inner with inner := f s.catalog } } }

def step (s : Session) : Step → Outcome × Session
  | .entity name =>
    let (found, store) := (source s.cached).entity name s.store
    (.record found, { s with store })
  | .typeCode code =>
    let (found, store) := (source s.cached).typeCode code s.store
    (.record found, { s with store })
  | .connected => (.connected ((source s.cached).connected s.store), s)
  | .setConnected value => (.done, s.modifyCatalog fun c => { c with connected := value })
  | .insert record => (.done, s.modifyCatalog (·.insert record))
  | .clear => (.done, { s with store := s.store.clear })
  | .convert fetch =>
    let (result, store) := WebQuery.ofFetch (source s.cached) s.base fetch s.store
    (.query result, { s with store })
  | .convertToUrl fetch =>
    let (result, store) := WebQuery.ofFetch (source s.cached) s.base fetch s.store
    (.url (result >>= WebQuery.plainUrl), { s with store })

end Session

end FetchOData
