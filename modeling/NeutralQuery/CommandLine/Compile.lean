import NeutralQuery.Document.Extended
import NeutralQuery.Plan.Compile
import NeutralQuery.Plan.Display
import NeutralQuery.Search.Request
import NeutralQuery.Settings.Basic
import NeutralQuery.Sql.Render

namespace NeutralQuery.Backend

def capabilities : Backend → Capabilities
  | .memory => .memory
  | .relational => .relational
  | .document => .document
  | .search => .search

def showStatement (q : Sql.Query) : Outcome String := do
  let params ← if q.params.isEmpty then pure .null else Json.ofValue (.list q.params)
  return q.sql ++ "\n-- params: " ++ params.compact true ++ "\n"

def shownResults : Int := 1000

/-- A request with the index that it goes to; a plain count needs no more than its query. -/
def showRequest (r : Search.Request) : Outcome String := do
  let body := if r.countOnly && r.group.isNone then r.countBody else r.body shownResults none
  let tree ← Json.ofValue (.record [("index", .text r.collection), ("body", body)])
  return tree.indented true 0 ++ "\n"

def render (p : Plan) : Backend → Outcome String
  | .memory => .ok p.shown
  | .relational => do showStatement (← Sql.render [] p)
  | .document => do return Document.shown p.root.collection (← Document.pipeline p) ++ "\n"
  | .search => do showRequest (← Search.render p)

end NeutralQuery.Backend
