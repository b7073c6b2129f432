import FetchOData.Compile.Request

namespace FetchOData

/-- A query as it is sent: its URL and the preferences that go with it as headers. -/
structure WebQuery where
  url : String
  preferHeaders : List String := []
deriving DecidableEq, Repr

namespace WebQuery

/-- The size of a page is not part of the URL. -/
def preferences (fetch : Query.Fetch) : List String :=
  match fetch.count with
  | some count => ["odata.maxpagesize=" ++ Number.integerText count.toNat]
  | none => []

def ofRequest (base : String) (fetch : Query.Fetch) (request : OData.Request) : WebQuery :=
  ⟨request.url base, preferences fetch⟩

/-- The web query of a fetch. A source that is not connected is not asked anything. -/
def ofFetch (source : Source σ) (base : String) (fetch : Query.Fetch) :
    StateM σ (Except Fault WebQuery) := fun s =>
  if source.connected s then
    let (answer, s) := (Compile.request fetch).runOnce source {} s
    (answer.map (ofRequest base fetch), s)
  else (.error .notConnected, s)

/-- The URL alone, when no header has to go with it. -/
def plainUrl (q : WebQuery) : Except Fault String :=
  if q.preferHeaders.isEmpty then .ok q.url else .error (.unsupported .preferHeaderRequired)

end WebQuery

end FetchOData
