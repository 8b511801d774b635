import NeutralQuery.Memory.Run
import NeutralQuery.Search.Request
import NeutralQuery.Search.Response

namespace NeutralQuery.Search

structure Settings where
  indexPrefix : String := ""
  maxResults : Int := 10000

def Settings.index (s : Settings) (collection : String) : String := s.indexPrefix ++ collection

/-- What is sent to the index. -/
structure Message where
  path : String
  body : Json

/-- A result, and the messages that it took. -/
structure Run (α : Type) where
  answer : Outcome α
  sent : List Message := []

def exhausted : Response := ⟨500, ""⟩

def exchange (action index endpoint : String) (body : Value) (response : Response) : Run Json :=
  let wrap := fun (r : Outcome Json) => r.mapError (.within (action ++ " " ++ index))
  match Json.ofValue body with
  | .error e => { answer := wrap (.error e) }
  | .ok json => { answer := wrap response.tree, sent := [⟨"/" ++ index ++ "/" ++ endpoint, json⟩] }

def search (index : String) (body : Value) (response : Response) : Run Json :=
  exchange "search" index "_search" body response

def convertRecord (entity : Entity) (record : Row) : Outcome Row :=
  entity.sortedFields.foldlM (fun row f =>
    match Row.find? row f.name with
    | none | some .null => .ok row
    | some v =>
      if f.type = .object || f.type = .any then .ok row
      else (convert f.name v f.type).map fun w => Row.put f.name w row) record

def convertReferenced (entity : Entity) : Value → Outcome Value
  | .record record => (convertRecord entity record).map .record
  | .list items =>
    (items.mapM fun (item : Value) =>
      match item with
      | .record record => (convertRecord entity record).map Value.record
      | v => .ok v).map .list
  | v => .ok v

def replaceAt (row : Row) (path : String) (v : Value) : Row :=
  if (Row.find? row path).isSome then Row.put path v row else row.set path v

def convertLookup (row : Row) (l : Lookup) : Outcome Row :=
  match row.get? l.path with
  | none => .ok row
  | some v => (convertReferenced l.target v).map (replaceAt row l.path)

def numeralValue (s : String) : Value :=
  let float := fun (_ : Unit) => Value.float (match Decimal.readFloat s with
    | .ok x => x
    | .error _ => if Text.startsWith s "-" then -(1 / 0) else 1 / 0)
  if s.toList.any fun c => c = '.' || c = 'e' || c = 'E' then float ()
  else
    match Decimal.readDecimalInt64 s with
    | .ok n => .ofInt64 n
    | .error _ => float ()

mutual

def resolveNumerals : Value → Value
  | .record entries => .record (resolveEntries entries)
  | .list items => .list (resolveItems items)
  | .numeral s => numeralValue s
  | v => v

def resolveItems : List Value → List Value
  | [] => []
  | v :: vs => resolveNumerals v :: resolveItems vs

def resolveEntries : List (String × Value) → List (String × Value)
  | [] => []
  | (key, v) :: rest => (key, resolveNumerals v) :: resolveEntries rest

end

def typedRow (p : Plan) (row : Row) : Outcome Row := do
  let row ← convertRecord p.root row
  let row ← p.lookups.foldlM convertLookup row
  return resolveEntries row

def hitRow (p : Plan) (hit : Json) : Outcome Row := do
  let row ← typedRow p (← source hit)
  return match p.projection? with
    | some names => row.project names
    | none => row

def wholePart (x : Float) : Int :=
  match (Decimal.binaryOfDouble x).truncate? with
  | some (n, _) => if IntKind.int64.Holds n then n else -Nat.pow 2 63
  | none => -Nat.pow 2 63

def metricResult (acc : Accumulator) : Option Float → Outcome Value
  | none =>
    if acc.function = .sum then convert acc.name (.ofInt 0) acc.resultType else .ok .null
  | some x =>
    if acc.resultType = .time then
      .ok (.time { Time.Timestamp.ofMillis (wholePart x) with zone := .utc })
    else convert acc.name (.float x) acc.resultType

def accumulated (count : Int) (aggregations : Json) (acc : Accumulator) : Outcome Value :=
  let found := metricValue? aggregations acc.name
  match acc.function with
  | .count => .ok (.ofInt64 count)
  | .countDistinct => .ok (.ofInt64 ((found.map wholePart).getD 0))
  | _ => metricResult acc found

/-- The row of a group: its keys at their paths, its accumulators under their names. -/
def groupRow (keys : List GroupKey) (accumulators : List Accumulator) (count : Int)
    (aggregations key : Json) : Outcome Row := do
  let row ← keys.zipIdx.foldlM (fun (row : Row) (k, i) =>
    (convert k.path ((key.get? (keyName i)).elim .null Json.floatValue) k.type).map fun v =>
      Row.set row k.path v) []
  accumulators.foldlM (fun row acc =>
    (accumulated count aggregations acc).map fun v => Row.put acc.name v row) row

def bucketRow (keys : List GroupKey) (accumulators : List Accumulator) (bucket : Json) :
    Outcome Row :=
  groupRow keys accumulators (((bucket.get? "doc_count").bind Json.asInt?).getD 0) bucket
    ((bucket.get? "key").getD .null)

def pageRows (keys : List GroupKey) (accumulators : List Accumulator) (j : Json) :
    Outcome (List Row × Option Row) :=
  let page := groupPage (aggregation? j groupsName)
  if page.buckets.isEmpty then .ok ([], none)
  else (page.buckets.mapM (bucketRow keys accumulators)).map fun rows => (rows, page.after)

def readPage (r : Request) (s : Settings) (keys : List GroupKey) (accumulators : List Accumulator)
    (after : Option Row) (response : Response) : Run (List Row × Option Row) :=
  let page := search (s.index r.collection) (r.body s.maxResults after) response
  { answer := page.answer.bind (pageRows keys accumulators), sent := page.sent }

/-- Reads pages of groups, each after the last key of the page before, until one is empty or the
last. -/
def groupRows (r : Request) (s : Settings) (keys : List GroupKey)
    (accumulators : List Accumulator) : Option Row → List Response → Run (List Row)
  | after, [] =>
    let page := readPage r s keys accumulators after exhausted
    { answer := page.answer.map (·.1), sent := page.sent }
  | after, response :: rest =>
    let page := readPage r s keys accumulators after response
    match page.answer with
    | .error e => { answer := .error e, sent := page.sent }
    | .ok (rows, none) => { answer := .ok rows, sent := page.sent }
    | .ok (rows, some key) =>
      let more := groupRows r s keys accumulators (some key) rest
      { answer := more.answer.map (rows ++ ·), sent := page.sent ++ more.sent }

/-- The rows of all groups, before the stages that follow the group. -/
def grouped (r : Request) (s : Settings) (keys : List GroupKey) (accumulators : List Accumulator)
    (responses : List Response) : Run (List Row) :=
  if keys.isEmpty then
    let all := search (s.index r.collection) (r.body s.maxResults none) (responses.headD exhausted)
    { answer := all.answer.bind fun j =>
        (groupRow [] accumulators (totalHits j) ((j.get? "aggregations").getD .null) .null).map
          fun row => [row]
      sent := all.sent }
  else groupRows r s keys accumulators none responses

def findRequest (s : Settings) (responses : List Response) (p : Plan) (r : Request) :
    Run (List Row) :=
  match r.group with
  | some (keys, accumulators) =>
    let groups := grouped r s keys accumulators responses
    { groups with answer := groups.answer.bind (Memory.apply .standard [] p.fields r.post) }
  | none =>
    let found :=
      search (s.index r.collection) (r.body s.maxResults none) (responses.headD exhausted)
    { answer := found.answer.bind fun j => (hits j).mapM (hitRow p), sent := found.sent }

def find (s : Settings) (responses : List Response) (p : Plan) : Run (List Row) :=
  match render p with
  | .error e => { answer := .error e }
  | .ok r => findRequest s responses p r

/-- Documents are counted by the index, groups by reading them all. -/
def count (s : Settings) (responses : List Response) (p : Plan) : Run Int :=
  match render p with
  | .error e => { answer := .error e }
  | .ok r =>
    if r.group.isNone && p.countOnly then
      let n := exchange "count" (s.index r.collection) "_count" r.countBody
        (responses.headD exhausted)
      { answer := n.answer.map fun j => ((j.get? "count").bind Json.asInt?).getD 0, sent := n.sent }
    else
      let found := findRequest s responses p r
      { answer := found.answer.bind fun rows =>
          if p.countOnly then Memory.readCount rows else .ok rows.length
        sent := found.sent }

end NeutralQuery.Search
