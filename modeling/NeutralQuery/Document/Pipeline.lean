import NeutralQuery.Document.Match

namespace NeutralQuery.Document

def doc (entries : List (String × Value)) : Value := .document entries

def single (key : String) (v : Value) : Value := doc [(key, v)]

def valueAt (path : String) : Value := .text ("$" ++ path)

def orNull (path : String) : Value := single "$ifNull" (.list [valueAt path, .null])

def keyName (i : Nat) : String := "k" ++ Text.ofNat i

/-- What a group stage computes for an accumulator, what is left to do afterwards, and the result
over no documents at all. -/
structure GroupEntry where
  spec : String × Value
  finish : Option (String × Value) := none
  empty : Value

def sizeWithoutNull (name : String) : Value :=
  single "$size" (single "$filter" (doc [("input", valueAt name),
    ("cond", single "$ne" (.list [.text "$$this", .null]))]))

def groupEntry (acc : Accumulator) : Outcome GroupEntry :=
  let operand := valueAt acc.operand
  let zero := Value.ofInt 0
  match acc.function with
  | .count => .ok { spec := (acc.name, single "$sum" (.ofInt 1)), empty := zero }
  | .countDistinct =>
    .ok { spec := (acc.name, single "$addToSet" operand)
          finish := some (acc.name, sizeWithoutNull acc.name), empty := zero }
  | .sum => .ok { spec := (acc.name, single "$sum" operand), empty := zero }
  | .avg => .ok { spec := (acc.name, single "$avg" operand), empty := .null }
  | .min => .ok { spec := (acc.name, single "$min" operand), empty := .null }
  | .max => .ok { spec := (acc.name, single "$max" operand), empty := .null }
  | .other name => .error (.note ("unknown aggregate " ++ name))

def groupIdentity (keys : List GroupKey) : Value :=
  if keys.isEmpty then .null else doc (keys.mapIdx fun i k => (keyName i, valueAt k.path))

/-- Moves the keys from the group identity back to their paths. -/
def restoredKeys (keys : List GroupKey) : List (String × Value) :=
  keys.mapIdx fun i k => (k.path, .text ("$_id." ++ keyName i))

def keylessStages (spec empty : Value) : List Value :=
  let orEmpty := single "$cond" (.list [
    single "$eq" (.list [single "$size" (.text "$rows"), .ofInt 0]), .list [empty], .text "$rows"])
  [single "$facet" (single "rows" (.list [single "$group" spec])),
    single "$project" (single "rows" orEmpty), single "$unwind" (.text "$rows"),
    single "$replaceRoot" (single "newRoot" (.text "$rows"))]

def groupStages (keys : List GroupKey) (accumulators : List Accumulator) : Outcome (List Value) :=
  (accumulators.mapM groupEntry).map fun entries =>
    let spec := doc (("_id", groupIdentity keys) :: entries.map (·.spec))
    let empty := doc (entries.map fun e => (e.spec.1, e.empty))
    let finish := entries.filterMap (·.finish) ++ restoredKeys keys
    (if keys.isEmpty then keylessStages spec empty else [single "$group" spec]) ++
      (if finish.isEmpty then [] else [single "$set" (doc finish)]) ++
      [single "$unset" (.text "_id")]

def stageDocuments (fields : FieldTable) : Stage → Outcome (List Value)
  | .lookup l =>
    .ok [single "$lookup" (doc [("from", .text l.target.collection),
      ("localField", .text l.localField), ("foreignField", .text l.edge.foreignField),
      ("as", .text l.output)])]
  | .unwind path preserve =>
    .ok [single "$unwind" (doc [("path", valueAt path),
      ("preserveNullAndEmptyArrays", .bool preserve)])]
  | .rename source target =>
    .ok [single "$set" (single target (orNull source)), single "$unset" (.text source)]
  | .keep f => (ofFilter fields f).map fun m => [single "$match" m.document]
  | .distinct identity =>
    .ok [single "$group"
        (doc [("_id", valueAt identity), ("doc", single "$first" (.text "$$ROOT"))]),
      single "$replaceRoot" (single "newRoot" (.text "$doc"))]
  | .group keys accumulators => groupStages keys accumulators
  | .having f => (ofFilter fields f).map fun m => [single "$match" m.document]
  | .sort keys =>
    .ok [single "$sort" (doc (keys.map fun k =>
      (k.path, .ofInt (if k.direction = .descending then -1 else 1))))]
  | .project names =>
    .ok [single "$project" (doc (("_id", .ofInt 0) :: names.map fun n => (n.1, orNull n.2)))]
  | .skip n => .ok [single "$skip" (.ofInt64 n)]
  | .limit n => .ok [single "$limit" (.ofInt64 n)]
  | .count output => .ok [single "$count" (.text output)]
  | .unknown _ type => .error (.note ("unknown stage " ++ type))

def decidesFields : Stage → Bool
  | .project _ | .count _ => true
  | _ => false

/-- The pipeline of a plan. The identity that the store adds to documents goes, unless the root
entity has it for its own. -/
def pipeline (p : Plan) : Outcome (List Value) :=
  (p.stages.mapM (stageDocuments p.fields)).map fun stages =>
    stages.flatten ++
      (if p.stages.any decidesFields || p.root.identity == "_id" then []
        else [single "$unset" (.text "_id")])

end NeutralQuery.Document
