import NeutralQuery.Error
import NeutralQuery.Operator.Basic

namespace NeutralQuery

/-- A comparison of a field with values. -/
structure Predicate where
  field : String
  operator : Operator
  values : List Value

namespace Predicate

/-- The operand of an operator that takes one. -/
def value (p : Predicate) : Value := p.values.headD .null

def plain (p : Predicate) : String :=
  p.field ++ " " ++ p.operator.token ++ " " ++ bracketed (p.values.map Value.plain)

end Predicate

inductive Filter where
  | all
  | predicate (p : Predicate)
  | and (operands : List Filter)
  | or (operands : List Filter)

instance : Inhabited Filter := ⟨.all⟩

namespace Filter

def isAll : Filter → Bool
  | .all => true
  | _ => false

mutual

def plain : Filter → String
  | .all => "TRUE"
  | .predicate p => p.plain
  | .and operands => "(" ++ " AND ".intercalate (plainAll operands) ++ ")"
  | .or operands => "(" ++ " OR ".intercalate (plainAll operands) ++ ")"

def plainAll : List Filter → List String
  | [] => []
  | f :: fs => f.plain :: plainAll fs

end

mutual

def leaves : Filter → List Predicate
  | .all => []
  | .predicate p => [p]
  | .and operands => leavesAll operands
  | .or operands => leavesAll operands

def leavesAll : List Filter → List Predicate
  | [] => []
  | f :: fs => f.leaves ++ leavesAll fs

end

mutual

/-- Replaces every predicate, from left to right, and keeps the shape of the tree. -/
def transform (f : Predicate → Outcome Predicate) : Filter → Outcome Filter
  | .all => .ok .all
  | .predicate p => (f p).map .predicate
  | .and operands => (transformAll f operands).map .and
  | .or operands => (transformAll f operands).map .or

def transformAll (f : Predicate → Outcome Predicate) : List Filter → Outcome (List Filter)
  | [] => .ok []
  | t :: ts =>
    match t.transform f with
    | .error e => .error e
    | .ok u => (transformAll f ts).map (u :: ·)

end

end Filter

end NeutralQuery
