import NeutralQuery.Decimal.Reading
import NeutralQuery.Value.Detailed

namespace NeutralQuery

/-- The kinds of rejected queries. -/
inductive Fault where
  | malformed
  | unsupportedOperator
  | conversion
  | unresolvable
  | aggregateMismatch
  | construction
deriving DecidableEq

def Fault.message : Fault → String
  | .malformed => "malformed expression"
  | .unsupportedOperator => "unsupported operator"
  | .conversion => "value conversion error"
  | .unresolvable => "unresolvable field path"
  | .aggregateMismatch => "type mismatch for aggregate"
  | .construction => "projection construction error"

/-- Why a query is rejected. -/
inductive Reason where
  | emptyPath
  | manyMarkers
  | markerBeforeDot
  | markerAtEnd
  | emptySegment
  | orOpens
  | orCloses
  | orAdjacent
  | groupSize (count : Nat)
  | groupNotCriteria
  | unknownOperator
  | noField
  | noValue
  | manyValues (count : Nat)
  | needsBoolean
  | cannotConvert (type : String)
  | nullNotEqual
  | unknownRoot
  | namelessSelection
  | duplicateAlias (name : String)
  | havingUngrouped
  | misplacedAggregate (position : String)
  | selectedNotGrouped
  | havingNotGrouped
  | orderNotGrouped
  | notResolved
  | notImplemented (backend : String)
  | needsText (type : String)
  | notOrdered (type : String)
  | noSuchField (entity field : String)
  | unknownEmbedded (entity : String)
  | notAnObject (entity field type : String)
  | unknownEntity (entity : String)
  | unknownTag (tag : String)
  | noOperand
  | unknownAggregate
  | aggregateOperand (function wanted operand type : String)
  | negativeIndex
  | sizeNotPositive
  | emptyColumn
  | unknownAccumulator
  | notComparable
  | shapeField (field : String)
  | shapeChild (field : String)
  | shapeSource (source : String)
  | missingChildShape (field : String)
  | noConstructor
  | producedOther (kind : String)
  | cannotBuild (shape : String)

def Reason.message : Reason → String
  | .emptyPath => "empty field path"
  | .manyMarkers => "more than one left-join marker"
  | .markerBeforeDot => "left-join marker must precede the terminal segment"
  | .markerAtEnd => "left-join marker needs a parent and a terminal segment"
  | .emptySegment => "empty path segment"
  | .orOpens => "OR marker cannot open a criterion list"
  | .orCloses => "OR marker cannot close a criterion list"
  | .orAdjacent => "OR markers cannot be adjacent"
  | .groupSize n => "group takes one nested criterion list, got " ++ Text.ofNat n ++ " values"
  | .groupNotCriteria => "group value is not a criterion list"
  | .unknownOperator => "unknown operator"
  | .noField => "criterion has no field path"
  | .noValue => "operator needs a value"
  | .manyValues n => "operator takes one value, got " ++ Text.ofNat n
  | .needsBoolean => "SPECIFIED takes a boolean"
  | .cannotConvert type => "cannot convert to " ++ type
  | .nullNotEqual => "null is only comparable for equality"
  | .unknownRoot => "unknown root entity"
  | .namelessSelection => "selection item has neither source nor alias"
  | .duplicateAlias name => "duplicate selection alias " ++ Text.quoted name
  | .havingUngrouped => "having needs grouping or an aggregate"
  | .misplacedAggregate position =>
    "aggregate expressions are only valid in select and having, not in " ++ position
  | .selectedNotGrouped => "selected field is neither grouped nor aggregated"
  | .havingNotGrouped => "having refers to a field that is not grouped"
  | .orderNotGrouped => "cannot order grouped rows by a field that is not grouped"
  | .notResolved => "field was not resolved"
  | .notImplemented backend => "not implemented by the " ++ backend ++ " backend"
  | .needsText type => "needs a string field, got " ++ type
  | .notOrdered type => type ++ " values are not ordered"
  | .noSuchField entity field => entity ++ " has no field " ++ Text.quoted field
  | .unknownEmbedded entity => "unknown embedded entity " ++ Text.quoted entity
  | .notAnObject entity field type =>
    entity ++ "." ++ field ++ " is a " ++ type ++ ", not an object"
  | .unknownEntity entity => "unknown entity " ++ Text.quoted entity
  | .unknownTag tag => "unknown aggregate function " ++ tag
  | .noOperand => "aggregate needs an operand path"
  | .unknownAggregate => "unknown aggregate function"
  | .aggregateOperand function wanted operand type =>
    function ++ " needs a " ++ wanted ++ " operand, " ++ operand ++ " is " ++ type
  | .negativeIndex => "page index must not be negative"
  | .sizeNotPositive => "page size must be positive"
  | .emptyColumn => "empty column"
  | .unknownAccumulator => "unknown accumulator"
  | .notComparable => "values are not comparable"
  | .shapeField field => "invalid or duplicate field " ++ Text.quoted field
  | .shapeChild field => "duplicate field " ++ Text.quoted field
  | .shapeSource source => "invalid or duplicate prefix " ++ Text.quoted source
  | .missingChildShape field => "child " ++ Text.quoted field ++ " has no shape"
  | .noConstructor => "immutable shape needs a constructor"
  | .producedOther kind => "shape produced " ++ kind
  | .cannotBuild shape => "cannot build " ++ shape

/-- Why a value has no counterpart in a wanted type. -/
inductive CastError where
  | uncastable (v : Value) (target : String)
  | unknownDate (s : String)
  | notBoolean (s : String)
  | notIntegral (x : Float)
  | unsupportedSource (target : String) (v : Value)
  | identifier (e : IdentifierError)

def CastError.message : CastError → String
  | .uncastable v target =>
    "unable to cast " ++ v.detailed ++ " of type " ++ v.kindName ++ " to " ++ target
  | .unknownDate s => "unable to parse date: " ++ s
  | .notBoolean s => "strconv.ParseBool: parsing " ++ Text.quoted s ++ ": invalid syntax"
  | .notIntegral x => Decimal.Layout.general.double x ++ " is not integral"
  | .unsupportedSource target v => "unsupported " ++ target ++ " source " ++ v.kindName
  | .identifier e => e.message

/-- A failure with its causes. -/
inductive Failure where
  | query (fault : Fault) (path operator : String) (value : Option Value) (reason : Reason)
      (cause : Option Failure)
  | keyNotFound
  | canceled
  | unsupportedStage
  | cast (e : CastError)
  /-- An operator that is not defined on two kinds of values. -/
  | undefinedOn (operator : String) (left right : Value)
  | note (text : String)
  | within (context : String) (cause : Failure)
  | several (causes : List Failure)

namespace Failure

def report (items : List String) : String :=
  let count := Text.ofNat items.length ++ (if items.length = 1 then " error" else " errors")
  count ++ " occurred:\n" ++ "".intercalate (items.map fun i => "\t* " ++ i ++ "\n") ++ "\n"

mutual

def message : Failure → String
  | .query fault path operator value reason cause =>
    fault.message ++
      (if path = "" then "" else " at " ++ Text.quoted path) ++
      (if operator = "" then "" else " with operator " ++ operator) ++
      (match value with
        | some v => " and value " ++ v.detailed
        | none => "") ++
      ": " ++ reason.message ++ causeMessage cause
  | .keyNotFound => "key not found"
  | .canceled => "context canceled"
  | .unsupportedStage => "stage is not supported by the search backend"
  | .cast e => e.message
  | .undefinedOn operator left right =>
    "operator \"" ++ operator ++ "\" is not supported for " ++ left.kindName ++ " and " ++
      right.kindName
  | .note text => text
  | .within context cause => context ++ ": " ++ cause.message
  | .several causes => report (messages causes)

def causeMessage : Option Failure → String
  | some cause => ": " ++ cause.message
  | none => ""

def messages : List Failure → List String
  | [] => []
  | cause :: causes => cause.message :: messages causes

end

def malformed (reason : Reason) : Failure := .query .malformed "" "" none reason none

def unresolvable (path : String) (reason : Reason) : Failure :=
  .query .unresolvable path "" none reason none

def unsupported (path operator : String) (reason : Reason) : Failure :=
  .query .unsupportedOperator path operator none reason none

def withOperator (operator : String) : Failure → Failure
  | .query fault path _ value reason cause => .query fault path operator value reason cause
  | f => f

/-- Adds a failure to those collected before it; reports are merged into one. -/
def append (collected : Option Failure) (f : Failure) : Failure :=
  let items : Failure → List Failure
    | .several causes => causes
    | f => [f]
  .several ((collected.elim [] items) ++ items f)

/-- What the outermost rejected query or the root cause of a failure is. -/
inductive Kind where
  | query (fault : Fault)
  | keyNotFound
  | unsupportedStage
  | canceled
  | other
deriving DecidableEq

mutual

def fault? : Failure → Option Fault
  | .query fault _ _ _ _ _ => some fault
  | .within _ cause => cause.fault?
  | .several causes => firstFault? causes
  | _ => none

def firstFault? : List Failure → Option Fault
  | [] => none
  | cause :: causes => cause.fault?.or (firstFault? causes)

end

mutual

def isCausedBy (target : Failure → Bool) : Failure → Bool
  | .query fault path operator value reason cause =>
    target (.query fault path operator value reason cause) || causeIsCausedBy target cause
  | .within context cause => target (.within context cause) || cause.isCausedBy target
  | .several causes => target (.several causes) || someIsCausedBy target causes
  | f => target f

def causeIsCausedBy (target : Failure → Bool) : Option Failure → Bool
  | some cause => cause.isCausedBy target
  | none => false

def someIsCausedBy (target : Failure → Bool) : List Failure → Bool
  | [] => false
  | cause :: causes => cause.isCausedBy target || someIsCausedBy target causes

end

def isKeyNotFound (f : Failure) : Bool :=
  f.isCausedBy fun
    | .keyNotFound => true
    | _ => false

def isUnsupportedStage (f : Failure) : Bool :=
  f.isCausedBy fun
    | .unsupportedStage => true
    | _ => false

def isCanceled (f : Failure) : Bool :=
  f.isCausedBy fun
    | .canceled => true
    | _ => false

def kind (f : Failure) : Kind :=
  match f.fault? with
  | some fault => .query fault
  | none =>
    if f.isKeyNotFound then .keyNotFound
    else if f.isUnsupportedStage then .unsupportedStage
    else if f.isCanceled then .canceled
    else .other

end Failure

abbrev Outcome := Except Failure

theorem map_eq_ok {x : Except ε α} {f : α → β} (h : x.map f = .ok b) :
    ∃ a, x = .ok a ∧ b = f a := by
  cases x with
  | error e => cases h
  | ok a =>
    cases h
    exact ⟨a, rfl, rfl⟩

theorem map_eq_error {x : Except ε α} {f : α → β} (h : x.map f = .error e) : x = .error e := by
  cases x with
  | error e' =>
    cases h
    rfl
  | ok a => cases h

theorem bind_eq_ok {x : Except ε α} {f : α → Except ε β} (h : x.bind f = .ok b) :
    ∃ a, x = .ok a ∧ f a = .ok b := by
  cases x with
  | error e => cases h
  | ok a => exact ⟨a, rfl, h⟩

end NeutralQuery
