import NeutralQuery.Plan.Basic

namespace NeutralQuery

/-- Named fields between braces. -/
def fieldsShown (fields : List (String × String)) : String :=
  "\x7b" ++ " ".intercalate (fields.map fun f => f.1 ++ ":" ++ f.2) ++ "\x7d"

def yesNo (b : Bool) : String := if b then "true" else "false"

def Edge.shown (e : Edge) : String :=
  fieldsShown [("FromType", e.source), ("FieldName", e.field), ("ToType", e.target),
    ("Multiplicity", e.multiplicity.token), ("LocalField", e.localField),
    ("ForeignField", e.foreignField), ("LocalArray", yesNo e.localArray)]

/-- The target of a join shows only that there is one. -/
def Lookup.shown (l : Lookup) : String :=
  fieldsShown [("Path", l.path), ("As", l.output), ("ParentPath", l.parentPath),
    ("LocalField", l.localField), ("Edge", l.edge.shown), ("Target", "PTR")]

def GroupKey.shown (k : GroupKey) : String := fieldsShown [("Path", k.path), ("Type", k.type.name)]

def Accumulator.shown (a : Accumulator) : String :=
  fieldsShown [("Name", a.name), ("Func", a.function.name), ("Operand", a.operand),
    ("OperandType", a.operandType.name), ("ResultType", a.resultType.name)]

def SortKey.shown (k : SortKey) : String :=
  fieldsShown [("Path", k.path), ("Direction", k.direction.token)]

def Stage.shown : Stage → String
  | .lookup l => l.shown
  | .unwind path preserve => fieldsShown [("Path", path), ("PreserveNullAndEmpty", yesNo preserve)]
  | .rename source target => fieldsShown [("From", source), ("To", target)]
  | .keep f => fieldsShown [("Filter", f.plain)]
  | .distinct identity => fieldsShown [("Identity", identity)]
  | .group keys accumulators =>
    fieldsShown [("Keys", bracketed (keys.map GroupKey.shown)),
      ("Accumulators", bracketed (accumulators.map Accumulator.shown))]
  | .having f => fieldsShown [("Filter", f.plain)]
  | .sort keys => fieldsShown [("Keys", bracketed (keys.map SortKey.shown))]
  | .project fields =>
    let shown := fields.map fun f => fieldsShown [("Alias", f.1), ("Path", f.2)]
    fieldsShown [("Fields", bracketed shown)]
  | .skip n => fieldsShown [("N", Text.ofInt n)]
  | .limit n => fieldsShown [("N", Text.ofInt n)]
  | .count output => fieldsShown [("As", output)]
  | .unknown _ _ => fieldsShown []

def Plan.shown (p : Plan) : String :=
  "".intercalate (p.stages.mapIdx fun i s =>
    Text.ofNat (i + 1) ++ ". " ++ s.kind ++ " " ++ s.shown ++ "\n")

end NeutralQuery
