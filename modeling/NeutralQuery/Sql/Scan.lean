import NeutralQuery.Row
import NeutralQuery.Sql.Render

namespace NeutralQuery.Sql

def normalize : Value → Value
  | .block b => .uuid ⟨b⟩
  | .int .int32 n => .ofInt64 n
  | .int .int16 n => .ofInt64 n
  | .float32 x => .float x.toFloat
  | v => v

def parentPath? (path : String) : Option String :=
  match (Text.split '.' path).dropLast with
  | [] => none
  | parents => some (Text.join '.' parents)

def parentPresent (row : Row) (path : String) : Bool :=
  (parentPath? path).all fun parent => !(row.get parent).isNull

def putColumn (nested : Bool) (row : Row) (column : String) (v : Value) : Row :=
  if !nested then Row.put column v row
  else if v.isNull && !parentPresent row column then row
  else row.set column v

def rowOf (q : Query) (values : List Value) : Row :=
  let filled := values ++ List.replicate (q.columns.length - values.length) .null
  (q.columns.zip filled).foldl (fun row c => putColumn q.nested row c.1 (normalize c.2)) []

/-- The lines that a database hands out, and what goes wrong while they are read. -/
structure ResultSet where
  lines : List (List Value)
  scanError : Option Failure := none
  endError : Option Failure := none
  closeError : Option Failure := none

namespace ResultSet

def read (r : ResultSet) (q : Query) : Outcome (List Row) :=
  match (if r.lines.isEmpty then none else r.scanError), r.endError, r.closeError with
  | some e, _, _ => .error (.within "scan failed" e)
  | none, some e, _ => .error e
  | none, none, some e => .error (.within "reading rows failed" e)
  | none, none, none => .ok (r.lines.map (rowOf q))

def readCount (r : ResultSet) : Outcome Int :=
  match r.scanError, r.lines with
  | some e, _ => .error e
  | none, [] => .error (.note "no current row")
  | none, line :: _ => (Cast.toInt (line.headD .null)).mapError .cast

end ResultSet

/-- A database: whether a session opens, whether it takes queries, and what it answers. -/
structure Database where
  sessionError : Option Failure := none
  queryError : Option Failure := none
  results : ResultSet

/-- The answer of a run, the queries that were sent and how often results were closed. -/
structure Run (α : Type) where
  answer : Outcome α
  queries : List Query := []
  closed : Nat := 0

def find (mapping : Mapping) (db : Database) (p : Plan) : Run (List Row) :=
  match render mapping p, db.sessionError, db.queryError with
  | .error e, _, _ => { answer := .error e }
  | .ok _, some e, _ => { answer := .error e }
  | .ok q, none, some e => { answer := .error (.within "query failed" e), queries := [q] }
  | .ok q, none, none => { answer := db.results.read q, queries := [q], closed := 1 }

def count (mapping : Mapping) (db : Database) (p : Plan) : Run Int :=
  if !p.countOnly then
    let r := find mapping db p
    { r with answer := r.answer.map fun rows => rows.length }
  else
    match render mapping p, db.sessionError with
    | .error e, _ => { answer := .error e }
    | .ok _, some e => { answer := .error e }
    | .ok q, none =>
      { answer := db.results.readCount.mapError (.within "count failed"), queries := [q] }

end NeutralQuery.Sql
