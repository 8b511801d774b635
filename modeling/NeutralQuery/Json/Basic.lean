import NeutralQuery.Text.Basic

namespace NeutralQuery

inductive Json where
  | null
  | bool (b : Bool)
  | number (token : String)
  | text (s : String)
  | list (items : List Json)
  | record (entries : List (String × Json))

namespace Json

instance : Inhabited Json := ⟨.null⟩

/-- The value of a member; of two with the same name the later one counts. -/
def get? (name : String) : Json → Option Json
  | .record entries => (entries.reverse.find? fun e => e.1 == name).map (·.2)
  | _ => none

/-- The members of a list; anything else has none. -/
def items : Json → List Json
  | .list items => items
  | _ => []

def isNull : Json → Bool
  | .null => true
  | _ => false

def ofInt (n : Int) : Json := .number (Text.ofInt n)

end Json

end NeutralQuery
