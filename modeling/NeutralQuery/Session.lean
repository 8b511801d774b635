import NeutralQuery.Error

namespace NeutralQuery.Session

/-- Which steps in the life of a transaction fail. -/
structure Fate where
  onBegin : Option Failure := none
  onCommit : Option Failure := none
  onRollback : Option Failure := none

inductive Action where
  /-- Reads all rows of a query; an error of the rows shows when they are closed. -/
  | query (sql : String) (arguments rows : List Value) (refusal rowsError : Option Failure)
  /-- Reads the first row of a query. -/
  | row (sql : String) (arguments rows : List Value)
  | fail (e : Failure)
  /-- Runs actions in a transaction of their own; `swallow` goes on after a failure. -/
  | atomic (fate : Fate) (swallow : Bool) (actions : List Action)
deriving Inhabited

/-- What can be seen from outside. Transactions are known by name. -/
inductive Event where
  /-- A transaction inside the named one was begun. -/
  | begun (transaction : String)
  | committed (transaction : String)
  | rolledBack (transaction : String)
  | queried (transaction sql : String) (arguments : List Value)
  | rowQueried (transaction sql : String) (arguments : List Value)
  | rows (values : List Value) (closeError : Option Failure)
  | row (v : Value)
  | failed (e : Failure)

def Event.line? : Event → Option String
  | .begun tx => some (tx ++ " begin")
  | .committed tx => some (tx ++ " commit")
  | .rolledBack tx => some (tx ++ " rollback")
  | .queried tx sql arguments =>
    some (tx ++ " query " ++ sql ++ " " ++ bracketed (plainList arguments))
  | .rowQueried tx sql arguments =>
    some (tx ++ " row " ++ sql ++ " " ++ bracketed (plainList arguments))
  | _ => none

def innerName (tx : String) : String := tx ++ ".tx"

def complete (fate : Fate) (tx : String) : Outcome Unit → Event × Outcome Unit
  | .error e =>
    (.rolledBack tx, .error (match fate.onRollback with
      | some r => Failure.append (some e) r
      | none => e))
  | .ok () =>
    (.committed tx, match fate.onCommit with
      | some c => .error (.within "failed to commit transaction" c)
      | none => .ok ())

def enclose (fate : Fate) (tx : String) (inner : List Event × Outcome Unit) :
    List Event × Outcome Unit :=
  match fate.onBegin with
  | some e => ([.begun tx], .error (.within "unable to start savepoint" e))
  | none =>
    let (last, result) := complete fate (innerName tx) inner.2
    (.begun tx :: (inner.1 ++ [last]), result)

/-- What is done inside a transaction, one thing after the other. What follows a transaction inside
it depends on how that one ended. -/
inductive Callback where
  | finish (result : Outcome Unit)
  /-- Something that the name of the transaction shows in. -/
  | act (event : String → Event) (next : Callback)
  | atomic (fate : Fate) (body : Callback) (next : Outcome Unit → Callback)

def Callback.run (tx : String) : Callback → List Event × Outcome Unit
  | .finish result => ([], result)
  | .act event next =>
    let (events, result) := next.run tx
    (event tx :: events, result)
  | .atomic fate body next =>
    let (events, inner) := enclose fate tx (body.run (innerName tx))
    let (more, result) := (next inner).run tx
    (events ++ more, result)

mutual

def Callback.ofActions : List Action → Callback
  | [] => .finish (.ok ())
  | a :: rest => a.before (Callback.ofActions rest)

def Action.before : Action → Callback → Callback
  | .query sql arguments rows refusal rowsError, next =>
    .act (.queried · sql arguments) (match refusal with
      | some e => .finish (.error e)
      | none => .act (fun _ => .rows rows rowsError) next)
  | .row sql arguments rows, next =>
    .act (.rowQueried · sql arguments) (match rows with
      | [] => .finish (.error (.note "no rows in result set"))
      | v :: _ => .act (fun _ => .row v) next)
  | .fail e, _ => .finish (.error e)
  | .atomic fate swallow actions, next =>
    .atomic fate (Callback.ofActions actions) fun
      | .ok () => next
      | .error e =>
        .act (fun _ => .failed e) (if swallow then next else .finish (.error e))

end

def runAll (tx : String) (actions : List Action) : List Event × Outcome Unit :=
  (Callback.ofActions actions).run tx

end NeutralQuery.Session
