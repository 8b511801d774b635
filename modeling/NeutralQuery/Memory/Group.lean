import NeutralQuery.Memory.Sharing
import NeutralQuery.Operator.Registry
import NeutralQuery.Plan.Basic
import NeutralQuery.Scalar.Conversion

namespace NeutralQuery.Memory

/-- Values are told apart by their kind and their plain text. Where the bytes of a text encode no
characters, they are spelled out instead, behind a sign that no kind holds. -/
def valueKey (v : Value) : String :=
  match v with
  | .rawText b => v.kindName ++ "\\" ++ Text.hexBytes b
  | _ => v.kindName ++ ":" ++ v.plain

structure Group where
  id : String
  keys : List Value
  rows : List Row

def Group.ofRow (paths : List String) (row : Row) : Group :=
  let keys := paths.map row.get
  ⟨"".intercalate (keys.map fun v => valueKey v ++ "|"), keys, [row]⟩

def Group.add (g : Group) : List Group → List Group
  | [] => [g]
  | h :: rest =>
    if h.id = g.id then { h with rows := h.rows ++ g.rows } :: rest else h :: g.add rest

/-- Groups in the order in which their keys first appear; without keys there is always one. -/
def groupRows (paths : List String) (rows : List Row) : List Group :=
  match paths, rows with
  | [], [] => [⟨"", [], []⟩]
  | _, _ => rows.foldl (fun groups row => (Group.ofRow paths row).add groups) []

def operandOf (acc : Accumulator) (row : Row) : Outcome (Option Value) :=
  let v := row.get acc.operand
  if v.isNull then .ok none
  else if acc.operandType = .object then .ok (some v)
  else (convert acc.operand v acc.operandType).map some

def operands (acc : Accumulator) (rows : List Row) : Outcome (List Value) :=
  (rows.mapM (operandOf acc)).map fun vs => vs.filterMap id

def sumInts (values : List Value) : Int :=
  values.foldl (fun sum v => wrap64 (sum + (Cast.toInt v).toOption.getD 0)) 0

def sumFloats (values : List Value) : Float :=
  values.foldl (fun sum v => sum + (Cast.toFloat v).toOption.getD 0) 0

/-- The first value that no later one beats, `wins` being the order in which one beats another. -/
def best (registry : Registry) (acc : Accumulator) (wins : Ordering) :
    Value → List Value → Outcome Value
  | champion, [] => .ok champion
  | champion, v :: rest =>
    match registry.order v champion with
    | .error e =>
      .error (.query .aggregateMismatch acc.operand "" none .notComparable (some e))
    | .ok c => best registry acc wins (if c = wins then v else champion) rest

def extreme (registry : Registry) (acc : Accumulator) (wins : Ordering) : List Value → Outcome Value
  | [] => .ok .null
  | v :: rest => best registry acc wins v rest

def aggregate (registry : Registry) (acc : Accumulator) (values : List Value) : Outcome Value :=
  match acc.function with
  | .countDistinct => .ok (.ofInt64 ((values.map valueKey).eraseDups.length : Nat))
  | .sum =>
    if acc.resultType = .int then .ok (.ofInt64 (sumInts values))
    else .ok (.float (sumFloats values))
  | .avg =>
    if values.isEmpty then .ok .null
    else .ok (.float (sumFloats values / Decimal.doubleOfInt values.length))
  | .min => extreme registry acc .lt values
  | .max => extreme registry acc .gt values
  | f => .error (.note ("unknown aggregate " ++ f.name))

def accumulate (registry : Registry) (rows : List Row) (acc : Accumulator) : Outcome Value :=
  if acc.function = .count then .ok (.ofInt64 (rows.length : Nat))
  else
    match operands acc rows with
    | .error e => .error e
    | .ok values => aggregate registry acc values

def placeOf (row : Row) (path : String) : List String :=
  if (Row.find? row path).isSome then [path] else Text.split '.' path

/-- The row of a group with its keys, and the first row of the group when they are put. A key that
is a record stays the first row's own, and a key with a path into it changes both. -/
def Group.settle (paths : List String) (g : Group) : Row × Row :=
  let first := g.rows.headD []
  let keys := (paths.zip g.keys).map fun k => Shared.ofValue (placeOf first k.1) k.2
  let shared := Shared.putKeys paths keys [] (Shared.ofRow [] first)
  (Shared.row shared.1, Shared.row shared.2)

def Group.settled (paths : List String) (g : Group) : List Row :=
  g.rows.modifyHead fun _ => (g.settle paths).2

def groupRow (registry : Registry) (paths : List String) (accumulators : List Accumulator)
    (g : Group) : Outcome Row :=
  let rows := g.settled paths
  (accumulators.mapM fun acc => (accumulate registry rows acc).map fun v => (acc.name, v)).map
    fun results => results.foldl (fun row r => Row.put r.1 r.2 row) (g.settle paths).1

def group (registry : Registry) (keys : List GroupKey) (accumulators : List Accumulator)
    (rows : List Row) : Outcome (List Row) :=
  let paths := keys.map (·.path)
  (groupRows paths rows).mapM (groupRow registry paths accumulators)

end NeutralQuery.Memory
