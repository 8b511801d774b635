import NeutralQuery.Row
import NeutralQuery.Search.Clause

namespace NeutralQuery.Search

structure Request where
  collection : String
  clause : Clause := .all
  sorting : List SortKey := []
  includes : List String := []
  offset : Int := 0
  size : Option Int := none
  countOnly : Bool
  group : Option (List GroupKey × List Accumulator) := none
  /-- What the index computes for each group, under the names of the accumulators. -/
  metrics : Row := []
  post : List Stage := []

def cardinalityPrecision : Int := 40000

def fieldEntry (path : String) : List (String × Value) :=
  if path = "" then [] else [("field", .text path)]

/-- The aggregation of an accumulator; counting needs none. -/
def metric (acc : Accumulator) : Outcome (Option Value) :=
  let simple := fun name => .ok (some (single name (.record (fieldEntry acc.operand))))
  match acc.function with
  | .count => .ok none
  | .countDistinct =>
    .ok (some (single "cardinality" (.record (fieldEntry acc.operand ++
      [("precision_threshold", .ofInt cardinalityPrecision)]))))
  | .sum => simple "sum"
  | .avg => simple "avg"
  | .min => simple "min"
  | .max => simple "max"
  | .other name => .error (.note ("unknown aggregate " ++ name))

/-- The aggregations of a group; of two with one name the later one stays. -/
def metrics (accumulators : List Accumulator) : Outcome Row :=
  (accumulators.mapM fun acc => (metric acc).map fun m => (acc.name, m)).map fun entries =>
    Row.ofList (entries.filterMap fun e => e.2.map fun m => (e.1, m))

def isDistinct : Stage → Bool
  | .distinct _ => true
  | _ => false

/-- The request of some stages, up to the first group. Records of a to-many reference would repeat
their owner, so they need distinct rows. -/
def requestOf (fields : FieldTable) (distinct : Bool) (r : Request) : List Stage → Outcome Request
  | [] => .ok r
  | stage :: rest =>
    match stage with
    | .lookup l =>
      if l.edge.multiplicity = .many && !distinct then
        .error
          (.within ("to-many reference " ++ l.path ++ " needs distinct rows") .unsupportedStage)
      else requestOf fields distinct r rest
    | .unwind _ _ | .rename _ _ | .distinct _ | .count _ => requestOf fields distinct r rest
    | .keep f =>
      match ofFilter fields f with
      | .error e => .error e
      | .ok clause => requestOf fields distinct { r with clause } rest
    | .group keys accumulators =>
      (metrics accumulators).map fun metrics =>
        { r with group := some (keys, accumulators), metrics, post := rest }
    | .sort keys => requestOf fields distinct { r with sorting := r.sorting ++ keys } rest
    | .project names =>
      requestOf fields distinct { r with includes := r.includes ++ names.map (·.2) } rest
    | .skip n => requestOf fields distinct { r with offset := n } rest
    | .limit n => requestOf fields distinct { r with size := some n } rest
    | .having _ | .unknown _ _ => .error (.within stage.typeName .unsupportedStage)

def render (p : Plan) : Outcome Request :=
  requestOf p.fields (p.stages.any isDistinct)
    { collection := p.root.collection, countOnly := p.countOnly } p.stages

def keyName (i : Nat) : String := "k" ++ Text.ofNat i

def keySource (i : Nat) (key : GroupKey) : Value :=
  single (keyName i) (single "terms" (.record (fieldEntry key.path ++
    [("missing_bucket", .bool true)])))

def aggregationsEntry (metrics : Row) : List (String × Value) :=
  if metrics.isEmpty then [] else [("aggregations", .record metrics)]

def Request.composite (r : Request) (size : Int) (after : Option Row) : Value :=
  let keys := (r.group.map (·.1)).getD []
  let page := [("size", Value.ofInt size), ("sources", .list (keys.mapIdx keySource))] ++
    (match after with
      | some key => [("after", .record key)]
      | none => [])
  .record (("composite", .record page) :: aggregationsEntry r.metrics)

def groupsName : String := "groups"

def sortEntry (k : SortKey) : Value :=
  let (order, missing) :=
    if k.direction = .descending then ("desc", "_last") else ("asc", "_first")
  single k.path (.record [("order", .text order), ("missing", .text missing)])

def Request.hitEntries (r : Request) (maxResults : Int) : List (String × Value) :=
  let size := r.size.getD maxResults
  (if r.sorting.isEmpty then [] else [("sort", .list (r.sorting.map sortEntry))]) ++
    (if r.includes.isEmpty then []
      else [("_source", single "includes" (.list (r.includes.map .text)))]) ++
    (if 0 < r.offset then [("from", .ofInt r.offset)] else []) ++
    (if size = -1 then [] else [("size", .ofInt size)])

/-- The body of a search for documents, for groups after a key, or for the one group of all. -/
def Request.body (r : Request) (maxResults : Int) (after : Option Row) : Value :=
  let rest :=
    match r.group with
    | none => r.hitEntries maxResults
    | some ([], _) =>
      [("size", .ofInt 0), ("track_total_hits", .bool true)] ++ aggregationsEntry r.metrics
    | some (_, _) =>
      [("size", .ofInt 0), ("aggregations", single groupsName (r.composite maxResults after))]
  .record (("query", r.clause.body) :: rest)

def Request.countBody (r : Request) : Value := single "query" r.clause.body

end NeutralQuery.Search
