import NeutralQuery.Plan.Basic

namespace NeutralQuery

namespace Aggregate

def mismatch (a : Aggregate) (operand : FieldRef) (wanted : String) : Failure :=
  .query .aggregateMismatch a.text "" none
    (.aggregateOperand a.function.name wanted operand.raw operand.type.name) none

def resultType (a : Aggregate) (operand : FieldRef) : Outcome ScalarType :=
  match a.function with
  | .count | .countDistinct => .ok .int
  | .sum =>
    if !operand.type.isNumeric then .error (mismatch a operand "numeric")
    else if operand.type = .int then .ok .int
    else .ok .float
  | .avg => if operand.type.isNumeric then .ok .float else .error (mismatch a operand "numeric")
  | .min | .max =>
    if operand.type.isOrderable then .ok operand.type else .error (mismatch a operand "orderable")
  | .other _ => .error (.query .malformed a.text "" none .unknownAggregate none)

end Aggregate

namespace Accumulators

/-- The name itself, and then the name with the numbers from 2 on. -/
def candidates (base : String) (count : Nat) : List String :=
  base :: (List.range count).map fun i => base ++ "_" ++ Text.ofNat (i + 2)

def freeName (base : String) (taken : List String) : String :=
  ((candidates base taken.length).find? fun name => !taken.contains name).getD base

def find? (items : List Accumulator) (function : AggregateFunction) (location : String) :
    Option Accumulator :=
  items.find? fun a => a.function == function && a.operand == location

/-- The accumulator of an aggregate, new or known, and all accumulators after it. -/
def add (items : List Accumulator) (a : Aggregate) (operand : FieldRef) :
    Outcome (Accumulator × List Accumulator) :=
  match find? items a.function operand.location with
  | some known => .ok (known, items)
  | none =>
    (a.resultType operand).map fun resultType =>
      let new : Accumulator :=
        ⟨freeName a.name (items.map (·.name)), a.function, operand.location, operand.type,
          resultType⟩
      (new, items ++ [new])

end Accumulators

end NeutralQuery
