import NeutralQuery.Catalog
import NeutralQuery.Filter.Basic
import NeutralQuery.Query.Aggregate
import NeutralQuery.Query.Spec

namespace NeutralQuery

/-- Joins the records that a local field refers to; rows without any are kept. -/
structure Lookup where
  path : String
  output : String
  parentPath : String
  localField : String
  edge : Edge
  target : Entity
deriving DecidableEq

structure GroupKey where
  path : String
  type : ScalarType
deriving DecidableEq

structure Accumulator where
  name : String
  function : AggregateFunction
  operand : String
  operandType : ScalarType
  resultType : ScalarType
deriving DecidableEq

structure SortKey where
  path : String
  direction : Direction
deriving DecidableEq

inductive Stage where
  | lookup (l : Lookup)
  /-- One row for each member of the array at a path. -/
  | unwind (path : String) (preserve : Bool)
  | rename (source target : String)
  | keep (filter : Filter)
  /-- The first row of each identity. -/
  | distinct (identity : String)
  /-- One row for each tuple of keys; without keys, one row in all. -/
  | group (keys : List GroupKey) (accumulators : List Accumulator)
  | having (filter : Filter)
  | sort (keys : List SortKey)
  | project (fields : List (String × String))
  | skip (n : Int)
  | limit (n : Int)
  | count (output : String)
  /-- A stage that no store knows, with the name of its kind. -/
  | unknown (kind : String) (type : String)

def Stage.kind : Stage → String
  | .lookup _ => "lookup"
  | .unwind _ _ => "unwind"
  | .rename _ _ => "rename"
  | .keep _ => "match"
  | .distinct _ => "distinct"
  | .group _ _ => "group"
  | .having _ => "having"
  | .sort _ => "sort"
  | .project _ => "project"
  | .skip _ => "skip"
  | .limit _ => "limit"
  | .count _ => "count"
  | .unknown kind _ => kind

/-- The name of the type of a stage, as messages show it. -/
def Stage.typeName : Stage → String
  | .lookup _ => "plan.LookupStage"
  | .unwind _ _ => "plan.UnwindStage"
  | .rename _ _ => "plan.RenameStage"
  | .keep _ => "plan.MatchStage"
  | .distinct _ => "plan.DistinctStage"
  | .group _ _ => "plan.GroupStage"
  | .having _ => "plan.HavingStage"
  | .sort _ => "plan.SortStage"
  | .project _ => "plan.ProjectStage"
  | .skip _ => "plan.SkipStage"
  | .limit _ => "plan.LimitStage"
  | .count _ => "plan.CountStage"
  | .unknown _ type => type

/-- Where a path leads and what stands there. -/
structure FieldRef where
  raw : String := ""
  isAggregate : Bool := false
  location : String := ""
  type : ScalarType := .other ""
  leftJoin : Bool := false
  parentLocation : String := ""
  parentIsReference : Bool := false
  /-- The references that the path crosses, outermost first. -/
  references : List String := []
  aggregate : Option Aggregate := none

/-- Resolved fields, one a written path. -/
abbrev FieldTable := List (String × FieldRef)

namespace FieldTable

def find? (t : FieldTable) (raw : String) : Option FieldRef :=
  (List.find? (fun e => e.1 == raw) t).map (·.2)

def get (t : FieldTable) (raw : String) : FieldRef := (t.find? raw).getD {}

def put (raw : String) (ref : FieldRef) : FieldTable → FieldTable
  | [] => [(raw, ref)]
  | (key, old) :: rest => if key = raw then (raw, ref) :: rest else (key, old) :: put raw ref rest

end FieldTable

structure Plan where
  root : Entity
  stages : List Stage
  fields : FieldTable
  countOnly : Bool

namespace Plan

def kinds (p : Plan) : List String := p.stages.map Stage.kind

def lookups (p : Plan) : List Lookup :=
  p.stages.filterMap fun
    | .lookup l => some l
    | _ => none

def lookup? (p : Plan) (path : String) : Option Lookup := p.lookups.find? (·.path == path)

def group? (p : Plan) : Option (List GroupKey × List Accumulator) :=
  p.stages.findSome? fun
    | .group keys accumulators => some (keys, accumulators)
    | _ => none

def projection? (p : Plan) : Option (List (String × String)) :=
  p.stages.findSome? fun
    | .project fields => some fields
    | _ => none

def accumulator? (p : Plan) (name : String) : Option Accumulator :=
  p.group?.bind fun g => g.2.find? (·.name == name)

end Plan

def isKey (keys : List GroupKey) (path : String) : Bool := keys.any (·.path == path)

/-- The field under which a count is stored. -/
def countField : String := "count"

end NeutralQuery
