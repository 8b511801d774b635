import NeutralQuery.Error

namespace NeutralQuery.Row

def find? (row : Row) (key : String) : Option Value :=
  (List.find? (fun e => e.1 == key) row).map (·.2)

def put (key : String) (v : Value) : Row → Row
  | [] => [(key, v)]
  | (k, w) :: rest => if k = key then (key, v) :: rest else (k, w) :: put key v rest

def erase (key : String) (row : Row) : Row := row.filter fun e => e.1 != key

def ofList (entries : List (String × Value)) : Row :=
  entries.foldl (fun row e => put e.1 e.2 row) []

def walk? : List String → Value → Option Value
  | [], v => some v
  | segment :: rest, .record row => (find? row segment).bind (walk? rest)
  | _ :: _, _ => none

/-- The value at a path; a key of the row that equals the whole path goes first. -/
def get? (row : Row) (path : String) : Option Value :=
  (find? row path).or (walk? (Text.split '.' path) (.record row))

def get (row : Row) (path : String) : Value := (row.get? path).getD .null

def lookup (row : Row) (path : String) : Outcome Value :=
  match row.get? path with
  | some v => .ok v
  | none => .error .keyNotFound

def child (row : Row) (key : String) : Row :=
  match find? row key with
  | some (.record inner) => inner
  | _ => []

def setAt : List String → Value → Row → Row
  | [], _, row => row
  | [segment], v, row => put segment v row
  | segment :: rest, v, row => put segment (.record (setAt rest v (child row segment))) row

/-- Writes a value at a path, making the records on the way. -/
def set (row : Row) (path : String) (v : Value) : Row := setAt (Text.split '.' path) v row

def unsetAt : List String → Row → Row
  | [], row => row
  | [segment], row => erase segment row
  | segment :: rest, row =>
    match find? row segment with
    | some (.record inner) => put segment (.record (unsetAt rest inner)) row
    | _ => row

def unset (row : Row) (path : String) : Row := unsetAt (Text.split '.' path) row

/-- The row of the given names, each with the value at its path. -/
def project (row : Row) (fields : List (String × String)) : Row :=
  fields.foldl (fun result f => put f.1 (row.get f.2) result) []

end NeutralQuery.Row
