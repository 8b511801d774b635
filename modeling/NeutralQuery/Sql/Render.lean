import NeutralQuery.Operator.Capability
import NeutralQuery.Plan.Basic
import NeutralQuery.Scalar.Cast
import NeutralQuery.Sql.Mapping
import NeutralQuery.Sql.Statement

namespace NeutralQuery.Sql

/-- A joined table: the path it lands on, its alias, and the entity it stores. -/
structure Table where
  path : String
  tableAlias : String
  entity : Entity

/-- The tables that expressions can refer to. -/
structure Frame where
  mapping : Mapping
  root : Table
  joined : List Table := []

namespace Frame

def covers (path location : String) : Bool :=
  path != "" && (location == path || Text.startsWith location (path ++ "."))

def longer (best : Option Table) (t : Table) : Option Table :=
  match best with
  | some b => if t.path.length < b.path.length then some b else some t
  | none => some t

def table? (f : Frame) (location : String) : Option Table :=
  (f.joined.filter fun t => covers t.path location).foldl longer none

/-- A location below a table: a column, or a value in the document that the column holds. -/
def below (f : Frame) (t : Table) (location : String) (segments : List String) (type : ScalarType) :
    Outcome Expr :=
  match segments with
  | [] => .error (.unresolvable location .emptyColumn)
  | first :: rest =>
    if first = "" then .error (.unresolvable location .emptyColumn)
    else
      let column := f.mapping.column t.entity first
      match rest.getLast? with
      | none => .ok (.column t.tableAlias column)
      | some last => .ok (.within t.tableAlias column rest.dropLast last type)

def identity (f : Frame) (t : Table) : Expr :=
  .column t.tableAlias (f.mapping.column t.entity t.entity.identity)

/-- The value at a location; a joined record stands for its identity. -/
def expr (f : Frame) (location : String) (type : ScalarType) : Outcome Expr :=
  match f.table? location with
  | none => f.below f.root location (Text.split '.' location) type
  | some t =>
    if location = t.path then .ok (f.identity t)
    else
      let rest := String.ofList (location.toList.drop (t.path.length + 1))
      f.below t location (Text.split '.' rest) type

def join (f : Frame) (index : Nat) (l : Lookup) : Outcome (Join × Frame) :=
  let tableAlias := f.mapping.aliasBase l.target ++ "_" ++ Text.ofNat index
  let keyType := ((l.target.field? l.edge.foreignField).map (·.type)).getD .any
  (f.expr l.localField keyType).map fun localExpr =>
    (⟨f.mapping.table l.target, tableAlias, f.mapping.column l.target l.edge.foreignField,
        localExpr, l.edge.localArray⟩,
      { f with joined := f.joined ++ [⟨l.path, tableAlias, l.target⟩] })

def joinAll : Frame → Nat → List Lookup → Outcome (List Join × Frame)
  | f, _, [] => .ok ([], f)
  | f, index, l :: ls =>
    match f.join index l with
    | .error e => .error e
    | .ok (j, g) => (joinAll g (index + 1) ls).map fun (js, h) => (j :: js, h)

end Frame

def accumulatorOutput (f : Frame) (acc : Accumulator) : Outcome Output :=
  if acc.function = .count then .ok .rows
  else
    match f.expr acc.operand acc.operandType with
    | .error e => .error e
    | .ok e =>
      match acc.function with
      | .countDistinct => .ok (.countDistinct e)
      | .sum => .ok (.sum e acc.resultType)
      | .avg => .ok (.avg e acc.resultType)
      | .min => .ok (.min e)
      | .max => .ok (.max e)
      | fn => .error (.note ("unknown aggregate " ++ fn.name))

def fieldOutput (f : Frame) (p : Plan) (ref : FieldRef) : Outcome Output :=
  if ref.isAggregate then
    match p.accumulator? ref.location with
    | none => .error (.unresolvable ref.raw .unknownAccumulator)
    | some acc => accumulatorOutput f acc
  else (f.expr ref.location ref.type).map .value

def bound : Value → Value
  | .ulid u => .text u.text
  | v => v

def escapeLike (s : String) : String :=
  Text.mapChars (fun c => if c = '\\' ∨ c = '%' ∨ c = '_' then ['\\', c] else [c]) s

def likePattern (before after : String) (v : Value) : Value :=
  .text (before ++ escapeLike v.plain ++ after)

def present (values : List Value) : List Value := values.filter fun v => !v.isNull

def equalTo (o : Output) (values : List Value) : Condition :=
  match present values with
  | [v] => .compare o .eq (bound v)
  | vs => .isIn o false (vs.map bound)

def differentFrom (o : Output) (values : List Value) : Condition :=
  match present values with
  | [v] => .compare o .ne (bound v)
  | vs => .isIn o true (vs.map bound)

def equalCondition (o : Output) (values : List Value) : Condition :=
  if (present values).isEmpty then .isNull o false
  else if values.any Value.isNull then .or [equalTo o values, .isNull o false]
  else equalTo o values

/-- Difference from all values, which absent values have unless null is among them. -/
def notEqualCondition (o : Output) (values : List Value) : Condition :=
  if (present values).isEmpty then .isNull o true
  else if values.any Value.isNull then differentFrom o values
  else .or [differentFrom o values, .isNull o false]

def specifiedCondition (f : Frame) (ref : FieldRef) (o : Output) (p : Predicate) :
    Outcome Condition :=
  match Cast.toBool p.value with
  | .error e => .error (.query .conversion p.field "" (some p.value) .needsBoolean (some (.cast e)))
  | .ok want =>
    if want || !ref.leftJoin then .ok (.isNull o want)
    else if ref.parentLocation = "" then .ok (.isNull o false)
    else (f.expr ref.parentLocation .object).map fun parent => .absentIn o (.value parent)

/-- The condition of a predicate on an output; `none` for an operator without one. -/
def predicateCondition (f : Frame) (ref : FieldRef) (o : Output) (p : Predicate) :
    Outcome Condition :=
  let compared := fun c => .ok (.compare o c (bound p.value))
  match p.operator with
  | .equal => .ok (equalCondition o p.values)
  | .notEqual => .ok (notEqualCondition o p.values)
  | .greaterThan => compared .gt
  | .greaterThanOrEqual => compared .ge
  | .lessThan => compared .lt
  | .lessThanOrEqual => compared .le
  | .contain => .ok (.isLike o false (likePattern "%" "%" p.value))
  | .startWith => .ok (.isLike o false (likePattern "" "%" p.value))
  | .endWith => .ok (.isLike o false (likePattern "%" "" p.value))
  | .doesNotContain =>
    .ok (.or [.isLike o true (likePattern "%" "%" p.value), .isNull o false])
  | .specified => specifiedCondition f ref o p
  | op => .error (.unsupported p.field op.token (.notImplemented Capabilities.relational.backend))

def condition (f : Frame) (plan : Plan) (p : Predicate) : Outcome Condition :=
  match plan.fields.find? p.field with
  | none => .error (.unresolvable p.field .notResolved)
  | some ref =>
    if !Capabilities.relational.supports p.operator then
      .error (.unsupported p.field p.operator.token
        (.notImplemented Capabilities.relational.backend))
    else
      match fieldOutput f plan ref with
      | .error e => .error e
      | .ok o => predicateCondition f ref o p

mutual

def ofFilter (f : Frame) (plan : Plan) : Filter → Outcome Condition
  | .all => .ok .true
  | .predicate p => condition f plan p
  | .and operands => (ofFilters f plan operands).map .and
  | .or operands => (ofFilters f plan operands).map .or

def ofFilters (f : Frame) (plan : Plan) : List Filter → Outcome (List Condition)
  | [] => .ok []
  | t :: ts =>
    match ofFilter f plan t with
    | .error e => .error e
    | .ok c => (ofFilters f plan ts).map (c :: ·)

end

/-- What a plan says about the clauses of a statement; a later stage of a kind replaces an earlier
one. -/
structure Clauses where
  filters : List Filter := []
  distinct : Bool := false
  group : Option (List GroupKey) := none
  having : Option Filter := none
  sort : Option (List SortKey) := none
  project : Option (List (String × String)) := none
  skip : Int := 0
  limit : Option Int := none
  count : String := ""

def Clauses.add (c : Clauses) : Stage → Clauses
  | .keep f => { c with filters := c.filters ++ [f] }
  | .distinct _ => { c with distinct := true }
  | .group keys _ => { c with group := some keys }
  | .having f => { c with having := some f }
  | .sort keys => { c with sort := some keys }
  | .project fields => { c with project := some fields }
  | .skip n => { c with skip := n }
  | .limit n => { c with limit := some n }
  | .count output => { c with count := output }
  | _ => c

def Clauses.ofPlan (p : Plan) : Clauses := p.stages.foldl Clauses.add {}

def typeOf (c : Clauses) (p : Plan) (location : String) : ScalarType :=
  match (c.group.getD []).find? (·.path == location) with
  | some k => k.type
  | none =>
    let leadsHere := fun (f : String × FieldRef) => !f.2.isAggregate && f.2.location == location
    ((List.find? leadsHere p.fields).map (·.2.type)).getD .any

def outputAt (f : Frame) (c : Clauses) (p : Plan) (path : String) : Outcome Output :=
  match (if c.group.isSome then p.accumulator? path else none) with
  | some acc => accumulatorOutput f acc
  | none => (f.expr path (typeOf c p path)).map .value

def wholeItems (f : Frame) (p : Plan) : List Item :=
  (p.root.sortedFields.map fun field =>
    ⟨.value (.column f.root.tableAlias (f.mapping.column p.root field.name)), some field.name⟩) ++
  (p.lookups.map fun l =>
    let tableAlias := ((f.joined.filter (·.path == l.path)).getLast?.map (·.tableAlias)).getD ""
    ⟨.value (.whole tableAlias (f.mapping.column l.target l.target.identity)), some l.path⟩)

def groupExprs (f : Frame) (c : Clauses) : Outcome (List Expr) :=
  (c.group.getD []).mapM fun k => f.expr k.path k.type

def selectionOf (f : Frame) (c : Clauses) (p : Plan) : Outcome Selection :=
  if p.countOnly then
    match c.group with
    | none => .ok .constant
    | some [] => .ok (.items [⟨.rows, none⟩])
    | some _ => (groupExprs f c).map fun es => .items (es.map fun e => ⟨.value e, none⟩)
  else
    match c.project with
    | none => .ok (.items (wholeItems f p))
    | some fields =>
      (fields.mapM fun (name, path) => (outputAt f c p path).map fun o => Item.mk o (some name)).map
        .items

def orderOf (f : Frame) (c : Clauses) (p : Plan) : Outcome (Option (List (Output × Bool))) :=
  match c.sort with
  | none => .ok none
  | some keys =>
    (keys.mapM fun k =>
      (outputAt f c p k.path).map fun o => (o, k.direction == .descending)).map some

def statement (mapping : Mapping) (p : Plan) : Outcome Statement := do
  let c := Clauses.ofPlan p
  let root : Table := ⟨"", mapping.aliasBase p.root ++ "_0", p.root⟩
  let (joins, f) ← Frame.joinAll ⟨mapping, root, []⟩ 1 p.lookups
  let filters ← c.filters.mapM (ofFilter f p)
  let selection ← selectionOf f c p
  let groupBy ← groupExprs f c
  let having ← match c.having with
    | some h => (ofFilter f p h).map some
    | none => .ok none
  let orderBy ← orderOf f c p
  return {
    table := mapping.table p.root, rootAlias := root.tableAlias, identity := f.identity root, joins,
    filters, distinct := c.distinct, selection, groupBy, having, orderBy,
    limit := c.limit.filter (0 ≤ ·), offset := if 0 < c.skip then some c.skip else none,
    countAs := if p.countOnly then some c.count else none }

/-- A rendered statement: the text, the bound values, and the names of the columns. -/
structure Query where
  sql : String
  params : List Value
  columns : List String
  /-- Whether the columns are paths of a nested record. -/
  nested : Bool

def Statement.columns (s : Statement) : List String :=
  match s.countAs, s.selection with
  | some name, _ => [name]
  | none, .items list => list.map fun i => i.name.getD ""
  | none, .constant => []

def render (mapping : Mapping) (p : Plan) : Outcome Query :=
  (statement mapping p).map fun s =>
    ⟨s.text, s.params, s.columns, !p.countOnly && (Clauses.ofPlan p).project.isNone⟩

end NeutralQuery.Sql
