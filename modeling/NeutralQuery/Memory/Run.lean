import NeutralQuery.Filter.Evaluate
import NeutralQuery.Memory.Group
import NeutralQuery.Memory.Store

namespace NeutralQuery.Memory

mutual

def keyMatches (registry : Registry) (foreign : Value) : Value → Bool
  | .list items => someKeyMatches registry foreign items
  | v =>
    !foreign.isNull &&
      match registry .equal v foreign with
      | .ok (some true) => true
      | _ => false

def someKeyMatches (registry : Registry) (foreign : Value) : List Value → Bool
  | [] => false
  | v :: vs => keyMatches registry foreign v || someKeyMatches registry foreign vs

end

/-- The records that a row refers to, in the order of the store. -/
def referenced (registry : Registry) (targets : List Row) (l : Lookup) (row : Row) : List Row :=
  let key := row.get l.localField
  if key.isNull then []
  else targets.filter fun t => keyMatches registry (t.get l.edge.foreignField) key

def lookup (registry : Registry) (targets : List Row) (l : Lookup) (row : Row) : Row :=
  row.set l.output (.list ((referenced registry targets l row).map .record))

def unwind (path : String) (preserve : Bool) (row : Row) : List Row :=
  match row.get? path with
  | some (.list []) => if preserve then [row.unset path] else []
  | some (.list items) => items.map fun item => row.set path item
  | _ => if preserve then [row] else []

def rename (source target : String) (row : Row) : Row :=
  (row.unset source).set target (row.get source)

def context (fields : FieldTable) (row : Row) : Context := fun field =>
  let ref? := fields.find? field
  match row.get? ((ref?.map (·.location)).getD field) with
  | none => .error .keyNotFound
  | some v =>
    match ref? with
    | none => .ok v
    | some ref =>
      if ref.type = .object then .ok v
      else
        match v with
        | .list items => (items.mapM fun item => convert field item ref.type).map .list
        | v => convert field v ref.type

/-- The rows that satisfy a filter; the first failure ends the search. -/
def select (registry : Registry) (fields : FieldTable) (f : Filter) : List Row → Outcome (List Row)
  | [] => .ok []
  | row :: rest =>
    match f.evaluate registry (context fields row) with
    | .error e => .error e
    | .ok keep =>
      (select registry fields f rest).map fun rows => if keep then row :: rows else rows

def distinctFrom (identity : String) : List String → List Row → List Row
  | _, [] => []
  | seen, row :: rest =>
    let key := valueKey (row.get identity)
    if seen.contains key then distinctFrom identity seen rest
    else row :: distinctFrom identity (key :: seen) rest

def distinct (identity : String) (rows : List Row) : List Row := distinctFrom identity [] rows

/-- Null stands lowest; values that cannot be compared are ordered by their plain text, byte by
byte. -/
def compareValues (registry : Registry) (a b : Value) : Ordering :=
  match a.isNull, b.isNull with
  | true, true => .eq
  | true, false => .lt
  | false, true => .gt
  | false, false =>
    match registry.order a b with
    | .ok c => c
    | .error _ => compareBytes a.plainBytes b.plainBytes

def compareKey (registry : Registry) (k : SortKey) (a b : Row) : Ordering :=
  let c := compareValues registry (a.get k.path) (b.get k.path)
  if k.direction = .descending then c.swap else c

def compareRows (registry : Registry) : List SortKey → Row → Row → Ordering
  | [], _, _ => .eq
  | k :: ks, a, b => (compareKey registry k a b).then (compareRows registry ks a b)

/-- Puts a row into rows in falling order, behind those that it comes before. -/
def insertRow (before : Row → Row → Bool) (row : Row) : List Row → List Row
  | [] => [row]
  | r :: rest => if before row r then r :: insertRow before row rest else row :: r :: rest

def sort (registry : Registry) (keys : List SortKey) (rows : List Row) : List Row :=
  let before := fun a b => compareRows registry keys a b == .lt
  (rows.foldl (fun sorted row => insertRow before row sorted) []).reverse

def outOfRange (bound : String) : Failure :=
  .note ("runtime error: slice bounds out of range [" ++ bound ++ "]")

def skip (n : Int) (rows : List Row) : Outcome (List Row) :=
  if n < 0 then .error (outOfRange (Text.ofInt n ++ ":")) else .ok (rows.drop n.toNat)

def limit (n : Int) (rows : List Row) : Outcome (List Row) :=
  if n < 0 then .error (outOfRange (":" ++ Text.ofInt n)) else .ok (rows.take n.toNat)

/-- What a stage makes of some rows; joins read their targets from the store. -/
def step (registry : Registry) (store : Store) (fields : FieldTable) (rows : List Row) :
    Stage → Outcome (List Row)
  | .lookup l => .ok (rows.map (lookup registry (store.collection l.target.collection) l))
  | .unwind path preserve => .ok (rows.flatMap (unwind path preserve))
  | .rename source target => .ok (rows.map (rename source target))
  | .keep f => select registry fields f rows
  | .distinct identity => .ok (distinct identity rows)
  | .group keys accumulators => group registry keys accumulators rows
  | .having f => select registry fields f rows
  | .sort keys => .ok (sort registry keys rows)
  | .project names => .ok (rows.map fun row => row.project names)
  | .skip n => skip n rows
  | .limit n => limit n rows
  | .count output => .ok [[(output, .ofInt64 (rows.length : Nat))]]
  | .unknown _ type => .error (.note ("unknown stage " ++ type))

def apply (registry : Registry) (store : Store) (fields : FieldTable) :
    List Stage → List Row → Outcome (List Row)
  | [], rows => .ok rows
  | stage :: stages, rows =>
    match step registry store fields rows stage with
    | .error e => .error e
    | .ok next => apply registry store fields stages next

def find (registry : Registry) (store : Store) (p : Plan) : Outcome (List Row) :=
  apply registry store p.fields p.stages (store.collection p.root.collection)

def readCount (rows : List Row) : Outcome Int :=
  match rows with
  | [row] => (Cast.toInt ((Row.find? row countField).getD .null)).mapError .cast
  | rows => .error (.note ("count plan produced " ++ Text.ofNat rows.length ++ " rows"))

def count (registry : Registry) (store : Store) (p : Plan) : Outcome Int :=
  match find registry store p with
  | .error e => .error e
  | .ok rows => if p.countOnly then readCount rows else .ok rows.length

end NeutralQuery.Memory
