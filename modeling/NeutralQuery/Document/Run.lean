import NeutralQuery.Document.Pipeline
import NeutralQuery.Memory.Run

namespace NeutralQuery.Document

mutual

def keptForm : Value → Value
  | .int .int64 n => .int .int64 n
  | .int _ n =>
    if -Nat.pow 2 31 ≤ n ∧ n < Nat.pow 2 31 then .int .int32 n else .int .int64 n
  | .float32 x => .float x.toFloat
  | .time t => .date t.toMillis
  | .duration d => .int .int64 d.nanos
  | .documentNull => .null
  | .document entries => .document (keptEntries entries)
  | .record entries => .document (keptEntries entries)
  | .list items => .list (keptItems items)
  | v => v

def keptItems : List Value → List Value
  | [] => []
  | v :: vs => keptForm v :: keptItems vs

def keptEntries : List (String × Value) → List (String × Value)
  | [] => []
  | (key, v) :: rest => (key, keptForm v) :: keptEntries rest

end

mutual

def plainForm : Value → Value
  | .document entries => .record (plainFormEntries entries)
  | .record entries => .record (plainFormEntries entries)
  | .list items => .list (plainFormItems items)
  | .date ms => .time { Time.Timestamp.ofMillis ms with zone := .utc }
  | .objectId b => .text (Text.hexBytes b)
  | .int .int32 n => .ofInt64 n
  | .documentNull => .null
  | v => v

def plainFormItems : List Value → List Value
  | [] => []
  | v :: vs => plainForm v :: plainFormItems vs

def plainFormEntries : List (String × Value) → List (String × Value)
  | [] => []
  | (key, v) :: rest =>
    let row := plainFormEntries rest
    if row.any (·.1 == key) then row else (key, plainForm v) :: row

end

/-- The row of a document; projected names with dots are read back flat. -/
def rowOf (p : Plan) (document : Value) : Row :=
  let row := ((plainForm document).asRecord?).getD []
  match p.projection? with
  | some fields => row.project (fields.map fun f => (f.1, f.1))
  | none => row

/-- What the store answers to a pipeline. -/
abbrev Server := List Value → Outcome (List Value)

def Server.answering (documents : List Value) : Server := fun _ => .ok (documents.map keptForm)

def find (server : Server) (p : Plan) : Outcome (List Row) :=
  match pipeline p with
  | .error e => .error e
  | .ok stages =>
    match server stages with
    | .error e => .error (.within ("aggregate " ++ p.root.collection) e)
    | .ok documents => .ok (documents.map (rowOf p))

/-- The number in the first row; a count over nothing answers no row. -/
def count (server : Server) (p : Plan) : Outcome Int :=
  match find server p with
  | .error e => .error e
  | .ok rows =>
    if !p.countOnly then .ok rows.length
    else
      match rows with
      | [] => .ok 0
      | row :: _ => (Cast.toInt ((Row.find? row countField).getD .null)).mapError .cast

end NeutralQuery.Document
