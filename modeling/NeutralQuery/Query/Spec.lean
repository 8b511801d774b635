import NeutralQuery.Query.Page
import NeutralQuery.Text.Blank

namespace NeutralQuery

/-- The direction of an order; only the word for descending turns it round. -/
inductive Direction where
  | ascending
  | descending
  | other (token : String)
deriving DecidableEq

namespace Direction

def token : Direction → String
  | .ascending => "ASC"
  | .descending => "DESC"
  | .other token => token

def ofToken (token : String) : Direction :=
  if token = "ASC" then .ascending else if token = "DESC" then .descending else .other token

/-- A word for a direction in any letter case; no word means ascending. -/
def parse? (raw : String) : Option Direction :=
  let word := Text.upper (Text.trim raw)
  if ["", "ASC", "ASCENDING"].contains word then some .ascending
  else if ["DESC", "DESCENDING"].contains word then some .descending
  else none

def orAscending (d : Direction) : Direction := if d.token = "" then .ascending else d

end Direction

structure Order where
  path : String
  direction : Direction

/-- A source, which may be an aggregate expression, and the name of its output. -/
structure SelectItem where
  source : String
  output : String

namespace SelectItem

def ofField (source : String) : SelectItem := ⟨source, source⟩

def name (i : SelectItem) : String := if i.output = "" then i.source else i.output

end SelectItem

structure QuerySpec where
  criteria : List Criterion := []
  select : List SelectItem := []
  groupBy : List String := []
  having : List Criterion := []
  orderBy : List Order := []
  page : Pagination := {}
  distinct : Bool := false

namespace QuerySpec

def withPage (q : QuerySpec) (index size : Int) : QuerySpec := { q with page := .of index size }

def withoutPage (q : QuerySpec) : QuerySpec := { q with page := {} }

end QuerySpec

end NeutralQuery
