import NeutralQuery.Value.Basic

namespace NeutralQuery.Toml

/-- How a table came about. -/
inductive Origin where
  /-- It stands on the way to a table that a header opened. -/
  | implied
  | header
  | dotted
deriving DecidableEq

inductive Entry where
  | value (v : Value)
  | table (origin : Origin) (entries : List (String × Entry))
  /-- The tables that repeated headers opened, the last one first. -/
  | tables (last : List (String × Entry)) (earlier : List (List (String × Entry)))

abbrev Entries := List (String × Entry)

def find? (key : String) (entries : Entries) : Option Entry :=
  (entries.find? fun e => e.1 == key).map (·.2)

/-- Puts an entry in the place of the one with its key, or at the end. -/
def put (key : String) (e : Entry) : Entries → Entries
  | [] => [(key, e)]
  | (k, old) :: rest => if k = key then (k, e) :: rest else (k, old) :: put key e rest

/-- Changes the table that headers reach through `path`. -/
def within (change : Entries → Option Entries) : List String → Entries → Option Entries
  | [], entries => change entries
  | key :: path, entries =>
    match find? key entries with
    | none => (within change path []).map fun t => put key (.table .implied t) entries
    | some (.table origin t) =>
      (within change path t).map fun t => put key (.table origin t) entries
    | some (.tables last earlier) =>
      (within change path last).map fun t => put key (.tables t earlier) entries
    | some (.value _) => none

def openTable (key : String) (entries : Entries) : Option Entries :=
  match find? key entries with
  | none => some (put key (.table .header []) entries)
  | some (.table .implied t) => some (put key (.table .header t) entries)
  | some _ => none

def openNext (key : String) (entries : Entries) : Option Entries :=
  match find? key entries with
  | none => some (put key (.tables [] []) entries)
  | some (.tables last earlier) => some (put key (.tables [] (last :: earlier)) entries)
  | some _ => none

def assign (v : Value) : List String → Entries → Option Entries
  | [], _ => none
  | [key], entries =>
    match find? key entries with
    | none => some (put key (.value v) entries)
    | some _ => none
  | key :: path, entries =>
    match find? key entries with
    | none => (assign v path []).map fun t => put key (.table .dotted t) entries
    | some (.table .dotted t) => (assign v path t).map fun t => put key (.table .dotted t) entries
    | some _ => none

mutual

def Entry.toValue : Entry → Value
  | .value v => v
  | .table _ entries => .record (toValues entries)
  | .tables last earlier => .list ((.record (toValues last) :: toRecords earlier).reverse)

def toValues : List (String × Entry) → List (String × Value)
  | [] => []
  | (key, e) :: rest => (key, e.toValue) :: toValues rest

def toRecords : List (List (String × Entry)) → List Value
  | [] => []
  | t :: ts => .record (toValues t) :: toRecords ts

end

end NeutralQuery.Toml
