import NeutralQuery.Sql.Condition

namespace NeutralQuery.Sql

/-- A left join on a column of its own table. -/
structure Join where
  table : String
  tableAlias : String
  foreign : String
  localExpr : Expr
  /-- Whether the local value is an array of keys. -/
  isArray : Bool

def Join.text (j : Join) : String :=
  let key := j.localExpr.text
  "LEFT JOIN " ++ j.table ++ " AS " ++ j.tableAlias ++ " ON " ++
    Expr.columnText j.tableAlias j.foreign ++ " = " ++
    (if j.isArray then "ANY(" ++ key ++ ")" else key)

/-- A selected output and its name; a count needs no name inside. -/
structure Item where
  output : Output
  name : Option String

/-- What a statement selects. -/
inductive Selection where
  | items (list : List Item)
  /-- A constant for each row. -/
  | constant

structure Statement where
  table : String
  rootAlias : String
  identity : Expr
  joins : List Join
  /-- Conditions on joined rows; only the last one is written, but all of them bind values. -/
  filters : List Condition
  distinct : Bool
  selection : Selection
  groupBy : List Expr
  having : Option Condition
  orderBy : Option (List (Output × Bool))
  limit : Option Int
  offset : Option Int
  countAs : Option String

namespace Statement

def selected (s : Statement) : List Output :=
  match s.selection with
  | .items list => list.map (·.output)
  | .constant => []

def filteredAggregates (s : Statement) : List Output :=
  (s.filters.flatMap Condition.outputs).filter Output.isAggregate

/-- The outputs that are not read off the joined tables, in the order in which they are named. -/
def outputs (s : Statement) : List Output :=
  s.filteredAggregates ++ s.selected ++ s.groupBy.map .value ++
    s.having.elim [] Condition.outputs ++ (s.orderBy.getD []).map (·.1)

def addSlot (slots : List Expr) (e : Expr) : List Expr :=
  if slots.any (·.text == e.text) then slots else slots ++ [e]

def slots (s : Statement) : List Expr := (s.outputs.flatMap Output.exprs).foldl addSlot []

def slotName (n : Nat) : String := "__c" ++ Text.ofNat n

def scope (s : Statement) (e : Expr) : String :=
  if s.distinct then
    match s.slots.findIdx? (·.text == e.text) with
    | some i => "d." ++ slotName (i + 1)
    | none => e.text
  else e.text

def rowOutput (s : Statement) (o : Output) : String :=
  o.text (if o.isAggregate then s.scope else Expr.text)

def filterParams (s : Statement) : List Value := s.filters.flatMap Condition.params

def params (s : Statement) : List Value :=
  s.filterParams ++ s.having.elim [] Condition.params

/-- The text of the last condition, numbered after the values that the ones before it bind. -/
def filterText (s : Statement) : String :=
  match s.filters.getLast? with
  | some c => c.text s.rowOutput (s.filters.dropLast.flatMap Condition.params).length
  | none => ""

def tables (s : Statement) : String :=
  s.table ++ " AS " ++ s.rootAlias ++ "".intercalate (s.joins.map fun j => " " ++ j.text) ++
    (if s.filterText = "" then "" else " WHERE " ++ s.filterText)

def subquery (s : Statement) : String :=
  let identity := s.identity.text
  let exposed := (identity ++ " AS " ++ slotName 0) ::
    s.slots.mapIdx fun i e => e.text ++ " AS " ++ slotName (i + 1)
  "(SELECT DISTINCT ON (" ++ identity ++ ") " ++ ", ".intercalate exposed ++ " FROM " ++ s.tables ++
    " ORDER BY " ++ identity ++ ") AS d"

def source (s : Statement) : String := if s.distinct then s.subquery else s.tables

def itemText (s : Statement) (i : Item) : String :=
  i.output.text s.scope ++
    match i.name with
    | some name => " AS " ++ identifier name
    | none => ""

def selectionText (s : Statement) : String :=
  match s.selection with
  | .items list => ", ".intercalate (list.map s.itemText)
  | .constant => "1"

def orderText (s : Statement) (o : Output × Bool) : String :=
  o.1.text s.scope ++ (if o.2 then " DESC NULLS LAST" else " ASC NULLS FIRST")

def tail (s : Statement) : String :=
  (if s.groupBy.isEmpty then "" else " GROUP BY " ++ ", ".intercalate (s.groupBy.map s.scope)) ++
  (match s.having with
    | some c => " HAVING " ++ c.text (Output.text s.scope) s.filterParams.length
    | none => "") ++
  (match s.orderBy with
    | some keys => " ORDER BY " ++ ", ".intercalate (keys.map s.orderText)
    | none => "") ++
  (match s.limit with
    | some n => " LIMIT " ++ Text.ofInt n
    | none => "") ++
  (match s.offset with
    | some n => " OFFSET " ++ Text.ofInt n
    | none => "")

def select (s : Statement) : String :=
  "SELECT " ++ s.selectionText ++ " FROM " ++ s.source ++ s.tail

def text (s : Statement) : String :=
  match s.countAs with
  | some name =>
    "SELECT COUNT(*) AS " ++ identifier name ++ " FROM (" ++ s.select ++ ") AS c"
  | none => s.select

end Statement

end NeutralQuery.Sql
