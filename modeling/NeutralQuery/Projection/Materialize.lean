import NeutralQuery.Projection.Shape

namespace NeutralQuery.Projection

/-- Takes what stands under a path out of a row: the members of the record there, and the keys that
begin with the path, which go before them. The rest of the row comes second. -/
def takeUnder (base : String) (row : Row) : Row × Row :=
  let (nested, row) :=
    match Row.find? row base with
    | some (.record inner) => (inner, Row.erase base row)
    | _ => ([], row)
  let below := base ++ "."
  let flat := row.filterMap fun e => (Text.dropStart? e.1 below).map fun key => (key, e.2)
  (flat.foldl (fun part e => Row.put e.1 e.2 part) nested,
    row.filter fun e => !Text.startsWith e.1 below)

def takingOrder (children : List Child) : List (Nat × String) :=
  (children.mapIdx fun i c => (i, c.base)).mergeSort fun a b =>
    decide (b.2.utf8ByteSize ≤ a.2.utf8ByteSize)

def takeParts : List (Nat × String) → Row → List (Nat × Row) × Row
  | [], row => ([], row)
  | (i, base) :: order, row =>
    let (part, rest) := takeUnder base row
    let (parts, rest) := takeParts order rest
    ((i, part) :: parts, rest)

def partition (children : List Child) (row : Row) : List Row × Row :=
  let (parts, rest) := takeParts (takingOrder children) row
  (children.mapIdx fun i _ => ((parts.find? fun p => p.1 == i).map (·.2)).getD [], rest)

def cannotBuild (shape : String) (cause : Failure) : Failure :=
  .query .construction shape "" none (.cannotBuild shape) (some cause)

def collect (failures : List Failure) : Option Failure :=
  failures.foldl (fun collected f => some (Failure.append collected f)) none

def missingLeaf (l : Leaf) : Failure :=
  .note ("missing field " ++ Text.quoted l.name ++ " (source " ++ Text.quoted l.path ++ ")")

def missingChild (c : Child) : Failure :=
  .note ("missing child " ++ Text.quoted c.name ++ " (prefix " ++ Text.quoted c.base ++ ")")

def presentLeaves (leaves : List Leaf) (row : Row) : List (String × Item) :=
  leaves.filterMap fun l => (row.get? l.path).map fun v => (l.name, .value v)

def refusals (target : Target) (fields : List (String × Item)) : List Failure :=
  fields.filterMap fun f =>
    (target.refuse f.1 f.2).map fun e => .within ("field " ++ Text.quoted f.1) e

def assign (target : Target) (name : String) (leaves : List Leaf) (row : Row)
    (children : List (Child × Option Item)) : Outcome Item :=
  let fields := presentLeaves leaves row ++
    children.filterMap fun (c, item) => item.map fun i => (c.name, i)
  match collect (refusals target fields) with
  | some e => .error (cannotBuild name e)
  | none => (target.finish fields).mapError (cannotBuild name)

def missingPieces (leaves : List Leaf) (row : Row) (children : List (Child × Bool)) :
    List Failure :=
  (leaves.filter fun l => (row.get? l.path).isNone).map missingLeaf ++
    (children.filter fun c => !c.2).map fun c => missingChild c.1

/-- A call of a constructor. -/
structure Call where
  shape : String
  arguments : List Item

/-- The calls of constructors, the earliest first, and what comes out. -/
abbrev Traced := List Call × Outcome Item

def construct (build : List Item → Outcome Item) (name : String) (leaves : List Leaf) (row : Row)
    (children : List (Option Item)) : Traced :=
  let arguments := (presentLeaves leaves row).map (·.2) ++ children.filterMap id
  ([⟨name, arguments⟩], (build arguments).mapError (cannotBuild name))

def failure? : Option (Outcome Item) → Option Failure
  | some (.error e) => some e
  | _ => none

def item? : Option (Outcome Item) → Option Item
  | some (.ok item) => some item
  | _ => none

/-- The item of a shape, given what its children became; a child without keys became nothing. -/
def finish (mode : Mode) (name : String) (leaves : List Leaf) (children : List Child) (row : Row)
    (built : List (Option (Outcome Item))) : Traced :=
  let failures := built.filterMap failure?
  let items := built.map item?
  match mode with
  | .mutable target =>
    match collect failures with
    | some e => ([], .error (cannotBuild name e))
    | none => ([], assign target name leaves row (children.zip items))
  | .immutable build =>
    let missing := missingPieces leaves row (children.zip (built.map Option.isSome))
    match collect (failures ++ missing) with
    | some e => ([], .error (cannotBuild name e))
    | none => construct build name leaves row items

namespace Traced

mutual

/-- The item that a shape makes of a row, behind the calls that are made for it. -/
def materialize : Shape → Row → Traced
  | .mk name mode leaves children, row =>
    let parts := partition children row
    let built := materializeChildren children parts.1
    let (calls, outcome) :=
      finish mode name leaves children parts.2 (built.map fun b => b.map (·.2))
    (built.flatMap (fun b => b.elim [] (·.1)) ++ calls, outcome)

def materializeChildren : List Child → List Row → List (Option Traced)
  | [], _ => []
  | c :: cs, parts => materializeChild c (parts.headD []) :: materializeChildren cs parts.tail

def materializeChild : Child → Row → Option Traced
  | ⟨_, _, shape⟩, part => if part.isEmpty then none else some (materialize shape part)

end

end Traced

def materialize (shape : Shape) (row : Row) : Outcome Item := (Traced.materialize shape row).2

def materializeAll (shape : Shape) (rows : List Row) : Outcome (List Item) :=
  rows.mapM (materialize shape)

def typeName : Item → String
  | .value v => v.kindName
  | .record _ => "projection.RecordTarget"
  | .built _ _ => "main.ctorValue"
  | .typed type _ => type

def materializeAs (accepts : Item → Bool) (shape : Shape) (rows : List Row) : Outcome (List Item) :=
  rows.mapM fun row => do
    let item ← materialize shape row
    if accepts item then return item
    else throw (.query .construction shape.name "" none (.producedOther (typeName item)) none)

end NeutralQuery.Projection
