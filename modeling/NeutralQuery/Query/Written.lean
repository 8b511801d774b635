import NeutralQuery.Operator.Basic
import NeutralQuery.Query.Spec
import NeutralQuery.Yaml.Decoding

namespace NeutralQuery

/-- An entry of a filter. Without a list of values its single value counts. -/
inductive WrittenCriterion where
  | mk (field operator : String) (value : Value) (values : Option (List Value))
      (group : List WrittenCriterion)

namespace WrittenCriterion

def empty : WrittenCriterion := .mk "" "" .null none []

mutual

def read? : Yaml.Node → Option WrittenCriterion
  | .mapping entries => readEntries? empty entries
  | _ => none

def readEntries? (c : WrittenCriterion) : List (Yaml.Node × Yaml.Node) → Option WrittenCriterion
  | [] => some c
  | (key, n) :: rest =>
    let .mk field operator value values group := c
    let next : Option WrittenCriterion :=
      match key.text? with
      | some "field" => (Yaml.text? n).map fun field => .mk field operator value values group
      | some "op" => (Yaml.text? n).map fun operator => .mk field operator value values group
      | some "value" => n.value?.map fun value => .mk field operator value values group
      | some "values" =>
        match n with
        | .sequence items =>
          (Yaml.itemValues? items).map fun vs => .mk field operator value (some vs) group
        | n => if n.isNull then some c else none
      | some "group" => (readGroup? n).map fun group => .mk field operator value values group
      | _ => none
    next.bind fun c => readEntries? c rest

def readGroup? : Yaml.Node → Option (List WrittenCriterion)
  | .sequence items => readAll? items
  | n => if n.isNull then some [] else none

def readAll? : List Yaml.Node → Option (List WrittenCriterion)
  | [] => some []
  | n :: ns =>
    if n.isNull then readAll? ns
    else
      match read? n with
      | none => none
      | some c => (readAll? ns).map (c :: ·)

end

mutual

/-- The criterion that is meant. -/
def criterion : WrittenCriterion → Outcome Criterion
  | .mk field operator value values group =>
    match Operator.parse? operator with
    | none => .error (.unsupported field operator .unknownOperator)
    | some .or => .ok ⟨"", Operator.or.token, []⟩
    | some .group => (criteria group).map fun inner => ⟨"", Operator.group.token, [.group inner]⟩
    | some op => .ok ⟨field, op.token, values.getD [value]⟩

def criteria : List WrittenCriterion → Outcome (List Criterion)
  | [] => .ok []
  | c :: cs =>
    match criterion c with
    | .error e => .error e
    | .ok first => (criteria cs).map (first :: ·)

end

end WrittenCriterion

namespace QuerySpec

structure Written where
  root : String
  filter : List WrittenCriterion
  select : List (String × String)
  groupBy : List String
  having : List WrittenCriterion
  orderBy : List (String × String)
  page : Pagination
  distinct : Bool

/-- A selected item is a path, or a mapping of a source and a name. -/
def selected? (n : Yaml.Node) : Option (String × String) :=
  match n with
  | .scalar _ _ s => some (s, "")
  | n => do
    let entries ← Yaml.entries? n
    return (← Yaml.text? (Yaml.entry entries "source"), ← Yaml.text? (Yaml.entry entries "alias"))

def order? (n : Yaml.Node) : Option (String × String) := do
  let entries ← Yaml.knownEntries? ["path", "direction"] n
  return (← Yaml.text? (Yaml.entry entries "path"), ← Yaml.text? (Yaml.entry entries "direction"))

def page? (n : Yaml.Node) : Option Pagination := do
  let entries ← Yaml.knownEntries? ["index", "size"] n
  return ⟨← Yaml.int? (Yaml.entry entries "index"), ← Yaml.int? (Yaml.entry entries "size")⟩

def keys : List String :=
  ["root", "where", "select", "groupBy", "having", "orderBy", "page", "distinct"]

def written? (n : Yaml.Node) : Option Written := do
  let entries ← Yaml.knownEntries? keys n
  let at_ := Yaml.entry entries
  return {
    root := ← Yaml.text? (at_ "root")
    filter := ← WrittenCriterion.readGroup? (at_ "where")
    select := ← Yaml.list? selected? (at_ "select")
    groupBy := ← Yaml.list? Yaml.text? (at_ "groupBy")
    having := ← WrittenCriterion.readGroup? (at_ "having")
    orderBy := ← Yaml.list? order? (at_ "orderBy")
    page := ← page? (at_ "page")
    distinct := ← Yaml.bool? (at_ "distinct") }

def selectItem (w : String × String) : SelectItem :=
  if w.2 = "" then .ofField w.1 else ⟨w.1, w.2⟩

def orderOf (w : String × String) : Outcome Order :=
  match Direction.parse? w.2 with
  | some direction => .ok ⟨w.1, direction⟩
  | none =>
    .error (.note ("order by " ++ w.1 ++ ": unknown direction " ++ Text.quoted w.2))

/-- The root entity and the query that a document describes. -/
def ofText (s : String) : Outcome (String × QuerySpec) := do
  let w ← Yaml.decode "unable to decode query" written? s
  if w.root = "" then throw (.note "query has no root entity")
  let criteria ← WrittenCriterion.criteria w.filter
  let having ← WrittenCriterion.criteria w.having
  let orderBy ← w.orderBy.mapM orderOf
  return (w.root, {
    criteria, having, orderBy, select := w.select.map selectItem, groupBy := w.groupBy
    page := w.page, distinct := w.distinct })

end QuerySpec

end NeutralQuery
