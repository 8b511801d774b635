import NeutralQuery.Error
import NeutralQuery.Text.Blank

namespace NeutralQuery

inductive AggregateFunction where
  | count
  | countDistinct
  | sum
  | avg
  | min
  | max
  | other (name : String)
deriving DecidableEq

namespace AggregateFunction

def name : AggregateFunction → String
  | .count => "count"
  | .countDistinct => "countdistinct"
  | .sum => "sum"
  | .avg => "avg"
  | .min => "min"
  | .max => "max"
  | .other name => name

def known : List AggregateFunction := [.count, .countDistinct, .sum, .avg, .min, .max]

def ofName? (name : String) : Option AggregateFunction := known.find? fun f => f.name == name

def ofName (name : String) : AggregateFunction := (ofName? name).getD (.other name)

end AggregateFunction

structure Aggregate where
  function : AggregateFunction
  operand : String
deriving DecidableEq

namespace Aggregate

def text (a : Aggregate) : String := "[" ++ a.function.name ++ "]" ++ a.operand

/-- The name under which the result is stored. -/
def name (a : Aggregate) : String :=
  a.function.name ++ "_" ++
    Text.mapChars (fun c => if c = '.' ∨ c = '<' then ['_'] else [c]) a.operand

/-- The tag and the rest of an expression that opens with a tag; the rest is one line. -/
def cutTag? (raw : String) : Option (String × String) :=
  match (Text.trim raw).toList with
  | '[' :: cs =>
    match Text.cutAt ']' cs with
    | some (tag, rest) =>
      if rest.contains '\n' then none else some (String.ofList tag, String.ofList rest)
    | none => none
  | _ => none

def isAggregate (raw : String) : Bool := (cutTag? raw).isSome

/-- The aggregate that an expression stands for; `none` for a plain path. -/
def parse (raw : String) : Outcome (Option Aggregate) :=
  match cutTag? raw with
  | none => .ok none
  | some (tag, operand) =>
    match AggregateFunction.ofName? (Text.lower tag) with
    | none => .error (.query .malformed raw "" none (.unknownTag tag) none)
    | some function =>
      if operand = "" then .error (.query .malformed raw "" none .noOperand none)
      else .ok (some ⟨function, operand⟩)

end Aggregate

end NeutralQuery
