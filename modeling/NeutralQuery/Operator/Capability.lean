import NeutralQuery.Operator.Basic

namespace NeutralQuery

/-- What a backend declares: its name and its operators. -/
structure Capabilities where
  backend : String
  operators : List Operator

namespace Capabilities

def supports (c : Capabilities) (o : Operator) : Bool := c.operators.contains o

/-- A backend with every operator that compares a field. -/
def all (backend : String) : Capabilities := ⟨backend, Operator.predicates⟩

def memory : Capabilities := all "memory"

def relational : Capabilities := all "relational"

def document : Capabilities := all "document"

def search : Capabilities := all "search"

end Capabilities

/-- One handler for each pair of a backend and an operator. -/
structure StrategyTable (α : Type) where
  handlers : List ((String × Operator) × α) := []

namespace StrategyTable

def lookup (t : StrategyTable α) (backend : String) (o : Operator) : Option α :=
  (t.handlers.find? fun h => h.1 == (backend, o)).map (·.2)

def register (t : StrategyTable α) (backend : String) (o : Operator) (handler : α) :
    StrategyTable α :=
  ⟨((backend, o), handler) :: t.handlers.filter fun h => h.1 != (backend, o)⟩

def supports (t : StrategyTable α) (backend : String) (o : Operator) : Bool :=
  (t.lookup backend o).isSome

def operators (t : StrategyTable α) (backend : String) : List Operator :=
  ((t.handlers.filter fun h => h.1.1 == backend).map (·.1.2)).mergeSort
    fun a b => !decide (b.token < a.token)

def capabilities (t : StrategyTable α) (backend : String) : Capabilities :=
  ⟨backend, t.operators backend⟩

end StrategyTable

end NeutralQuery
