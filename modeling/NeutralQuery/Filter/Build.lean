import NeutralQuery.Filter.Basic

namespace NeutralQuery

def orToken : String := Operator.or.token

def groupToken : String := Operator.group.token

namespace Criterion

def isOr (c : Criterion) : Bool := c.operator == orToken

def isGroup (c : Criterion) : Bool := c.operator == groupToken

end Criterion

namespace Criteria

def misplacedOr (reason : Reason) : Failure := (Failure.malformed reason).withOperator orToken

def adjacentOrs : List Criterion → Bool
  | a :: b :: rest => (a.isOr && b.isOr) || adjacentOrs (b :: rest)
  | _ => false

def validate (criteria : List Criterion) : Outcome Unit :=
  if criteria.head?.any Criterion.isOr then .error (misplacedOr .orOpens)
  else if criteria.getLast?.any Criterion.isOr then .error (misplacedOr .orCloses)
  else if adjacentOrs criteria then .error (misplacedOr .orAdjacent)
  else .ok ()

def groupSizeError (operator : String) (count : Nat) : Failure :=
  (Failure.malformed (.groupSize count)).withOperator operator

def notCriteriaError (operator : String) (v : Value) : Failure :=
  .query .malformed "" operator (some v) .groupNotCriteria none

/-- The predicate of a criterion that is no marker. -/
def leaf (field operator : String) (values : List Value) : Outcome Predicate :=
  match Operator.parse? operator with
  | none => .error (.unsupported field operator .unknownOperator)
  | some op =>
    if field = "" then .error ((Failure.malformed .noField).withOperator op.token)
    else if values.isEmpty then .error (.query .malformed field op.token none .noValue none)
    else if 1 < values.length ∧ !op.acceptsMany then
      .error (.query .malformed field op.token (some (.list values)) (.manyValues values.length)
        none)
    else .ok ⟨field, op, values⟩

/-- A list of one filter stands for that filter. -/
def conjoin : List Filter → Filter
  | [f] => f
  | fs => .and fs

def disjoin : List Filter → Filter
  | [f] => f
  | fs => .or fs

def addFirst (f : Filter) : List (List Filter) → List (List Filter)
  | [] => [[f]]
  | first :: rest => (f :: first) :: rest

/-- The filter of a list whose alternatives have been read; misplaced markers go first. -/
def assemble (criteria : List Criterion) (parts : Outcome (List (List Filter))) : Outcome Filter :=
  match validate criteria with
  | .error e => .error e
  | .ok () =>
    if criteria.isEmpty then .ok .all else parts.map fun ps => disjoin (ps.map conjoin)

mutual

def ofCriterion : Criterion → Outcome Filter
  | ⟨field, operator, values⟩ =>
    if operator = groupToken then ofGroup operator values
    else (leaf field operator values).map .predicate

def ofGroup (operator : String) : List Value → Outcome Filter
  | [] => .ok .all
  | [v] => ofNested operator v
  | _ :: _ :: rest => .error (groupSizeError operator (rest.length + 2))

def ofNested (operator : String) : Value → Outcome Filter
  | .null => .ok .all
  | .group items => assemble items (alternatives items)
  | .criteria items => assemble items (alternatives items)
  | v => .error (notCriteriaError operator v)

/-- The filters of each alternative, cut at the markers. -/
def alternatives : List Criterion → Outcome (List (List Filter))
  | [] => .ok [[]]
  | c :: cs =>
    if c.isOr then (alternatives cs).map ([] :: ·)
    else
      match ofCriterion c with
      | .error e => .error e
      | .ok f => (alternatives cs).map (addFirst f)

end

def ofList (criteria : List Criterion) : Outcome Filter :=
  assemble criteria (alternatives criteria)

mutual

def pathsOfCriterion : Criterion → Outcome (List String)
  | ⟨field, operator, values⟩ =>
    if operator = orToken then .ok []
    else if operator = groupToken then pathsOfGroup operator values
    else .ok [field]

def pathsOfGroup (operator : String) : List Value → Outcome (List String)
  | [] => .ok []
  | [v] => pathsOfNested operator v
  | _ :: _ :: rest => .error (groupSizeError operator (rest.length + 2))

def pathsOfNested (operator : String) : Value → Outcome (List String)
  | .null => .ok []
  | .group items => paths items
  | .criteria items => paths items
  | v => .error (notCriteriaError operator v)

/-- The field paths of a criterion list in the order of appearance. -/
def paths : List Criterion → Outcome (List String)
  | [] => .ok []
  | c :: cs =>
    match pathsOfCriterion c with
    | .error e => .error e
    | .ok ps => (paths cs).map (ps ++ ·)

end

end Criteria

def Filter.build (criteria : List Criterion) : Outcome Filter := Criteria.ofList criteria

end NeutralQuery
