import NeutralQuery.Value.Basic

namespace NeutralQuery

abbrev Store := List (String × List Row)

namespace Store

def collection (s : Store) (name : String) : List Row :=
  ((List.find? (fun c => c.1 == name) s).map (·.2)).getD []

/-- Adds rows at the end of a collection. -/
def insert (s : Store) (name : String) (rows : List Row) : Store :=
  if s.any (·.1 == name) then s.map fun c => if c.1 == name then (c.1, c.2 ++ rows) else c
  else s ++ [(name, rows)]

end Store

end NeutralQuery
