import NeutralQuery.Filter.Basic
import NeutralQuery.Operator.Registry
import NeutralQuery.Path
import NeutralQuery.Row
import NeutralQuery.Scalar.Cast

namespace NeutralQuery

/-- The values of one record; a missing one is reported as a key that was not found. -/
abbrev Context := String → Outcome Value

def Context.ofRow (row : Row) : Context := row.lookup

def Context.get (context : Context) (field : String) : Outcome Value :=
  match context field with
  | .ok v => .ok v
  | .error e => if e.isKeyNotFound then .ok .null else .error e

/-- The operand of a predicate; a missing left-join path is looked for at its dotted location. -/
def Context.field (context : Context) (raw : String) : Outcome Value :=
  match context raw with
  | .ok v => .ok v
  | .error e =>
    if e.isKeyNotFound then
      match FieldPath.parse raw with
      | .ok path => if path.leftJoin then context.get path.location else .ok .null
      | .error _ => .ok .null
    else .error e

namespace Filter

def matchesOperand (registry : Registry) (o : Operator) (v : Value) : List Value → Outcome Bool
  | [] => .ok false
  | w :: ws =>
    if v.isNull || w.isNull then
      if o = .equal ∧ v.isNull ∧ w.isNull then .ok true else matchesOperand registry o v ws
    else
      match registry o v w with
      | .error e => .error e
      | .ok (some true) => .ok true
      | .ok _ => matchesOperand registry o v ws

mutual

def matchesAny (registry : Registry) (o : Operator) (operands : List Value) : Value → Outcome Bool
  | .list items => someMatches registry o operands items
  | v => matchesOperand registry o v operands

def someMatches (registry : Registry) (o : Operator) (operands : List Value) :
    List Value → Outcome Bool
  | [] => .ok false
  | v :: vs =>
    match matchesAny registry o operands v with
    | .error e => .error e
    | .ok true => .ok true
    | .ok false => someMatches registry o operands vs

end

def booleanError (p : Predicate) (e : CastError) : Failure :=
  .query .conversion p.field p.operator.token (some p.value) .needsBoolean (some (.cast e))

/-- Presence of a value. The absence asked for across a left join needs its parent to be there. -/
def isSpecified (context : Context) (p : Predicate) (v : Value) : Outcome Bool :=
  match Cast.toBool p.value with
  | .error e => .error (booleanError p e)
  | .ok true => .ok !v.isNull
  | .ok false =>
    match FieldPath.parse p.field with
    | .ok path =>
      if path.leftJoin then
        (context.get path.parent.location).map fun parent => !parent.isNull && v.isNull
      else .ok v.isNull
    | .error _ => .ok v.isNull

def holdsPredicate (registry : Registry) (context : Context) (p : Predicate) : Outcome Bool :=
  match context.field p.field with
  | .error e => .error e
  | .ok v =>
    match p.operator with
    | .specified => isSpecified context p v
    | .notEqual => (matchesAny registry .equal p.values v).map (!·)
    | .doesNotContain =>
      if v.isNull then .ok true else (matchesAny registry .contain p.values v).map (!·)
    | o => matchesAny registry o p.values v

abbrev Visit := StateT Bool Outcome Unit

mutual

def visit (registry : Registry) (context : Context) : Filter → Visit
  | .all => set true
  | .predicate p => do set (← holdsPredicate registry context p)
  | .and operands => visitAll registry context operands
  | .or operands => visitSome registry context operands

def visitAll (registry : Registry) (context : Context) : List Filter → Visit
  | [] => set true
  | f :: fs => do
    f.visit registry context
    if ← get then visitAll registry context fs

def visitSome (registry : Registry) (context : Context) : List Filter → Visit
  | [] => set false
  | f :: fs => do
    f.visit registry context
    if !(← get) then visitSome registry context fs

end

def evaluate (registry : Registry) (context : Context) (f : Filter) : Outcome Bool :=
  ((f.visit registry context).run false).map (·.2)

end Filter

end NeutralQuery
