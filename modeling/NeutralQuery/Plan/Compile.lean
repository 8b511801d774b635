import NeutralQuery.Filter.Build
import NeutralQuery.Operator.Capability
import NeutralQuery.Plan.Accumulators
import NeutralQuery.Plan.Resolution
import NeutralQuery.Scalar.Conversion

namespace NeutralQuery

namespace Compile

/-- A written expression with its path and, where it is an aggregate, the aggregate. -/
structure Reference where
  raw : String
  path : String
  aggregate : Option Aggregate

def Reference.parse (raw : String) : Outcome Reference :=
  (Aggregate.parse raw).map fun
    | some a => ⟨raw, a.operand, some a⟩
    | none => ⟨raw, raw, none⟩

/-- A selected expression under its output name. -/
structure Selected where
  name : String
  reference : Reference

def readSelection : List String → List SelectItem → Outcome (List Selected)
  | _, [] => .ok []
  | taken, item :: rest =>
    let name := item.name
    if name = "" then .error (.malformed .namelessSelection)
    else if taken.contains name then
      .error (.query .malformed item.source "" none (.duplicateAlias name) none)
    else
      match Reference.parse item.source with
      | .error e => .error e
      | .ok reference => (readSelection (name :: taken) rest).map (⟨name, reference⟩ :: ·)

/-- A query whose filters and expressions have been read. -/
structure Parsed where
  spec : QuerySpec
  keep : Filter
  having : Filter
  selection : List Selected
  havingRefs : List Reference

namespace Parsed

def grouped (q : Parsed) : Bool :=
  !q.spec.groupBy.isEmpty || q.selection.any (·.reference.aggregate.isSome) ||
    q.havingRefs.any (·.aggregate.isSome)

def ordersByAggregate (q : Parsed) (path : String) : Bool :=
  q.selection.any fun s => s.reference.aggregate.isSome && s.name == path

end Parsed

def read (spec : QuerySpec) : Outcome Parsed :=
  match spec.page.validate with
  | .error e => .error e
  | .ok () =>
    match Filter.build spec.criteria with
    | .error e => .error e
    | .ok keep =>
      match Filter.build spec.having with
      | .error e => .error e
      | .ok having =>
        match readSelection [] spec.select with
        | .error e => .error e
        | .ok selection =>
          match having.leaves.mapM fun p => Reference.parse p.field with
          | .error e => .error e
          | .ok havingRefs =>
            let q : Parsed := ⟨spec, keep, having, selection, havingRefs⟩
            if !havingRefs.isEmpty && !q.grouped then .error (.malformed .havingUngrouped)
            else .ok q

def plainPath (position : String) (raw : String) : Outcome String :=
  if Aggregate.isAggregate raw then
    .error (.query .malformed raw "" none (.misplacedAggregate position) none)
  else .ok raw

def Parsed.paths (q : Parsed) : Outcome (List String) := do
  let kept ← q.keep.leaves.mapM fun p => plainPath "where" p.field
  let keys ← q.spec.groupBy.mapM (plainPath "group by")
  let orders ← q.spec.orderBy.mapM fun o => plainPath "order by" o.path
  return kept ++ q.selection.map (·.reference.path) ++ keys ++ q.havingRefs.map (·.path) ++
    orders.filter fun path => !q.ordersByAggregate path

/-- The keys and accumulators of a grouped query. -/
structure Grouping where
  keys : List GroupKey := []
  accumulators : List Accumulator := []
  /-- The accumulators of the selected aggregates, by output name. -/
  named : List (String × Accumulator) := []

def addKey (fields : FieldTable) (keys : List GroupKey) (path : String) : List GroupKey :=
  let ref := fields.get path
  if isKey keys ref.location then keys else keys ++ [⟨ref.location, ref.type⟩]

def addSelected (fields : FieldTable) : Grouping → List Selected → Outcome Grouping
  | g, [] => .ok g
  | g, s :: rest =>
    let ref := fields.get s.reference.path
    match s.reference.aggregate with
    | none =>
      if isKey g.keys ref.location then addSelected fields g rest
      else .error (.unresolvable s.reference.path .selectedNotGrouped)
    | some a =>
      match Accumulators.add g.accumulators a ref with
      | .error e => .error e
      | .ok (acc, accumulators) =>
        addSelected fields { g with accumulators, named := g.named ++ [(s.name, acc)] } rest

def aggregateField (raw : String) (a : Aggregate) (acc : Accumulator) : FieldRef :=
  { raw, isAggregate := true, location := acc.name, type := acc.resultType, aggregate := some a }

def addHaving : FieldTable → Grouping → List Reference → Outcome (FieldTable × Grouping)
  | fields, g, [] => .ok (fields, g)
  | fields, g, r :: rest =>
    let ref := fields.get r.path
    match r.aggregate with
    | none =>
      if isKey g.keys ref.location then addHaving fields g rest
      else .error (.unresolvable r.raw .havingNotGrouped)
    | some a =>
      match Accumulators.add g.accumulators a ref with
      | .error e => .error e
      | .ok (acc, accumulators) =>
        addHaving (fields.put r.raw (aggregateField r.raw a acc)) { g with accumulators } rest

def Parsed.grouping (q : Parsed) (fields : FieldTable) : Outcome (FieldTable × Grouping) :=
  if !q.grouped then .ok (fields, {})
  else
    match addSelected fields { keys := q.spec.groupBy.foldl (addKey fields) [] } q.selection with
    | .error e => .error e
    | .ok g => addHaving fields g q.havingRefs

def convertLiteral (ref : FieldRef) (o : Operator) (v : Value) : Outcome Value :=
  if o = .specified then
    match Cast.toBool v with
    | .ok b => .ok (.bool b)
    | .error e =>
      .error (.query .conversion ref.raw o.token (some v) .needsBoolean (some (.cast e)))
  else if v.isNull then
    if o.acceptsMany then .ok .null
    else .error (.query .conversion ref.raw o.token (some v) .nullNotEqual none)
  else
    (convert ref.raw v (if o.isTextMatch then .string else ref.type)).mapError
      (·.withOperator o.token)

/-- A predicate that the backend implements, with literals of the declared type. -/
def typedPredicate (caps : Capabilities) (fields : FieldTable) (p : Predicate) :
    Outcome Predicate :=
  match fields.find? p.field with
  | none => .error (.unresolvable p.field .notResolved)
  | some ref =>
    if !caps.supports p.operator then
      .error (.unsupported p.field p.operator.token (.notImplemented caps.backend))
    else if p.operator.isTextMatch && !ref.type.isText then
      .error (.unsupported p.field p.operator.token (.needsText ref.type.name))
    else if p.operator.isOrdering && !ref.type.isOrderable then
      .error (.unsupported p.field p.operator.token (.notOrdered ref.type.name))
    else (p.values.mapM (convertLiteral ref p.operator)).map fun values => { p with values }

def typed (caps : Capabilities) (fields : FieldTable) (f : Filter) : Outcome Filter :=
  f.transform (typedPredicate caps fields)

def filterStage (caps : Capabilities) (fields : FieldTable) (stage : Filter → Stage) (f : Filter) :
    Outcome (List Stage) :=
  if f.isAll then .ok [] else (typed caps fields f).map fun t => [stage t]

/-- A join, the flattening of what it found and, for a single record, its move into place. -/
def lookupStages (l : Lookup) : List Stage :=
  if l.edge.multiplicity = .one then
    [.lookup l, .unwind l.output true, .rename l.output l.path]
  else [.lookup l, .unwind l.path true]

def sortKey (q : Parsed) (fields : FieldTable) (g : Grouping) (o : Order) : Outcome SortKey :=
  match (g.named.find? fun n => n.1 == o.path).map (·.2) with
  | some acc => .ok ⟨acc.name, o.direction.orAscending⟩
  | none =>
    let ref := fields.get o.path
    if q.grouped && !isKey g.keys ref.location then
      .error (.unresolvable o.path .orderNotGrouped)
    else .ok ⟨ref.location, o.direction.orAscending⟩

def sortStages (q : Parsed) (fields : FieldTable) (g : Grouping) : Outcome (List Stage) :=
  if q.spec.orderBy.isEmpty then .ok []
  else (q.spec.orderBy.mapM (sortKey q fields g)).map fun keys => [.sort keys]

def selectedPath (fields : FieldTable) (g : Grouping) (s : Selected) : String :=
  match s.reference.aggregate with
  | none => (fields.get s.reference.path).location
  | some _ => ((g.named.find? fun n => n.1 == s.name).map (·.2.name)).getD ""

def projectStages (q : Parsed) (fields : FieldTable) (g : Grouping) : List Stage :=
  if !q.selection.isEmpty then
    [.project (q.selection.map fun s => (s.name, selectedPath fields g s))]
  else if q.grouped then
    [.project (g.keys.map (fun k => (k.path, k.path)) ++
      g.accumulators.map fun a => (a.name, a.name))]
  else []

def pageStages (p : Pagination) : List Stage :=
  match p.size with
  | none => []
  | some size =>
    let index := p.index.getD 0
    (if 0 < index then [.skip (wrap64 (index * size))] else []) ++ [.limit size]

def sharedStages (caps : Capabilities) (root : Entity) (q : Parsed) (lookups : List Lookup)
    (fields : FieldTable) (g : Grouping) : Outcome (List Stage) :=
  match filterStage caps fields .keep q.keep with
  | .error e => .error e
  | .ok keep =>
    (filterStage caps fields .having q.having).map fun having =>
      lookups.flatMap lookupStages ++ keep ++
        (if q.spec.distinct then [.distinct root.identity] else []) ++
        (if q.grouped then [.group g.keys g.accumulators] else []) ++ having

def dressingStages (q : Parsed) (fields : FieldTable) (g : Grouping) : Outcome (List Stage) :=
  (sortStages q fields g).map fun sort => sort ++ projectStages q fields g

def stages (caps : Capabilities) (root : Entity) (q : Parsed) (lookups : List Lookup)
    (fields : FieldTable) (g : Grouping) (countOnly : Bool) : Outcome (List Stage) :=
  match sharedStages caps root q lookups fields g with
  | .error e => .error e
  | .ok shared =>
    if countOnly then .ok (shared ++ [.count countField])
    else
      (dressingStages q fields g).map fun dressing =>
        shared ++ (dressing ++ pageStages q.spec.page)

end Compile

/-- Turns queries over a catalog into plans for one backend. -/
structure Compiler where
  catalog : Catalog
  capabilities : Capabilities := .memory

namespace Compiler

open Compile

def planOf (c : Compiler) (root : Entity) (q : Parsed) (countOnly : Bool) : Outcome Plan :=
  match q.paths with
  | .error e => .error e
  | .ok raws =>
    match Resolution.resolve c.catalog root raws with
    | .error e => .error e
    | .ok resolution =>
      match q.grouping resolution.fields with
      | .error e => .error e
      | .ok (fields, g) =>
        (stages c.capabilities root q resolution.lookups fields g countOnly).map fun stages =>
          ⟨root, stages, fields, countOnly⟩

def run (c : Compiler) (root : String) (spec : QuerySpec) (countOnly : Bool) : Outcome Plan :=
  match c.catalog.entity? root with
  | none => .error (.unresolvable root .unknownRoot)
  | some entity => (read spec).bind fun q => c.planOf entity q countOnly

def compile (c : Compiler) (root : String) (spec : QuerySpec) : Outcome Plan :=
  c.run root spec false

def compileCount (c : Compiler) (root : String) (spec : QuerySpec) : Outcome Plan :=
  c.run root spec true

end Compiler

end NeutralQuery
