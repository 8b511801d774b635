import NeutralQuery.Row

namespace NeutralQuery

/-- What a shape makes of a row. -/
inductive Item where
  | value (v : Value)
  | record (fields : List (String × Item))
  /-- The result of a constructor call. -/
  | built (shape : String) (arguments : List Item)
  /-- A record of a declared type, with all of its fields. -/
  | typed (type : String) (fields : List (String × Item))

instance : Inhabited Item := ⟨.value .null⟩

/-- Fields are assigned one by one: `refuse` says why one is not taken, and `finish` turns the
assigned fields into the result. -/
structure Target where
  refuse : String → Item → Option Failure := fun _ _ => none
  finish : List (String × Item) → Outcome Item := fun fields => .ok (.record fields)

inductive Mode where
  | mutable (target : Target)
  /-- One call with the leaves and then the children, in the order of their declaration. -/
  | immutable (build : List Item → Outcome Item)

structure Leaf where
  name : String
  source : String := ""

/-- The path that a leaf reads; its own name unless another one is given. -/
def Leaf.path (l : Leaf) : String := if l.source = "" then l.name else l.source

mutual

structure Child where
  name : String
  /-- The path under which the keys of the child stand. -/
  base : String
  shape : Shape

inductive Shape where
  | mk (name : String) (mode : Mode) (leaves : List Leaf) (children : List Child)

end

namespace Shape

def name : Shape → String
  | .mk name _ _ _ => name

def mode : Shape → Mode
  | .mk _ mode _ _ => mode

def leaves : Shape → List Leaf
  | .mk _ _ leaves _ => leaves

def children : Shape → List Child
  | .mk _ _ _ children => children

instance : Inhabited Shape := ⟨.mk "" (.mutable {}) [] []⟩

def rejected (shape : String) (reason : Reason) : Failure :=
  .query .construction shape "" none reason none

def missingChild? (children : List (String × String × Option Shape)) : Option String :=
  (children.find? fun c => c.2.2.isNone).map (·.1)

def childrenOf (children : List (String × String × Option Shape)) : List Child :=
  children.filterMap fun (name, base, shape) =>
    shape.map fun shape => ⟨name, if base = "" then name else base, shape⟩

def checkLeaves (shape : String) : List String → List Leaf → Outcome (List String)
  | seen, [] => .ok seen
  | seen, l :: ls =>
    if l.name = "" ∨ seen.contains l.name then .error (rejected shape (.shapeField l.name))
    else checkLeaves shape (l.name :: seen) ls

def checkChildren (shape : String) : List String → List String → List Child → Outcome Unit
  | _, _, [] => .ok ()
  | names, bases, c :: cs =>
    if names.contains c.name then .error (rejected shape (.shapeChild c.name))
    else if bases.contains c.base || Text.endsWith c.base "." then
      .error (rejected shape (.shapeSource c.base))
    else checkChildren shape (c.name :: names) (c.base :: bases) cs

/-- Checks a declaration; a mode that is missing is one whose constructor is. -/
def declare (name : String) (leaves : List Leaf) (children : List (String × String × Option Shape))
    (mode : Option Mode) : Outcome Shape := do
  if let some child := missingChild? children then
    throw (rejected name (.missingChildShape child))
  let names ← checkLeaves name [] leaves
  let children := childrenOf children
  checkChildren name names [] children
  match mode with
  | none => throw (rejected name .noConstructor)
  | some mode => return .mk name mode leaves children

end Shape

end NeutralQuery
