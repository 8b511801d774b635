import NeutralQuery.Query.Aggregate
import NeutralQuery.Scalar.Basic

namespace NeutralQuery.Sql

def literal (s : String) : String :=
  "'" ++ Text.mapChars (fun c => if c = '\'' then ['\'', '\''] else [c]) s ++ "'"

def identifier (s : String) : String :=
  "\"" ++ Text.mapChars
    (fun c => if c = '"' then ['"', '"'] else if c.toNat = 0 then [] else [c]) s ++ "\""

def castSuffix : ScalarType → String
  | .int => "::bigint"
  | .float => "::double precision"
  | .bool => "::boolean"
  | .time => "::timestamptz"
  | .uuid => "::uuid"
  | _ => ""

/-- A value of a joined row. -/
inductive Expr where
  | column (tableAlias name : String)
  /-- A value inside the document that a column holds. -/
  | within (tableAlias name : String) (path : List String) (last : String) (type : ScalarType)
  /-- A whole joined record, null where the join found none. -/
  | whole (tableAlias identity : String)
deriving DecidableEq

namespace Expr

def columnText (tableAlias name : String) : String := tableAlias ++ "." ++ name

def text : Expr → String
  | .column a name => columnText a name
  | .within a name path last type =>
    let parent := columnText a name ++ "".intercalate (path.map fun s => "->" ++ literal s)
    if type = .object then parent ++ "->" ++ literal last
    else "(" ++ parent ++ "->>" ++ literal last ++ ")" ++ castSuffix type
  | .whole a identity =>
    "CASE WHEN " ++ columnText a identity ++ " IS NULL THEN NULL ELSE to_jsonb(" ++ a ++ ") END"

end Expr

/-- What a clause after grouping can name: a value of a row, or an aggregate over a group. -/
inductive Output where
  | value (e : Expr)
  | rows
  | countDistinct (e : Expr)
  | sum (e : Expr) (type : ScalarType)
  | avg (e : Expr) (type : ScalarType)
  | min (e : Expr)
  | max (e : Expr)
deriving DecidableEq

namespace Output

def exprs : Output → List Expr
  | .rows => []
  | .value e | .countDistinct e | .sum e _ | .avg e _ | .min e | .max e => [e]

def isAggregate : Output → Bool
  | .value _ => false
  | _ => true

def text (scope : Expr → String) : Output → String
  | .value e => scope e
  | .rows => "COUNT(*)"
  | .countDistinct e => "COUNT(DISTINCT " ++ scope e ++ ")"
  | .sum e type => "COALESCE(SUM(" ++ scope e ++ "), 0)" ++ castSuffix type
  | .avg e type => "AVG(" ++ scope e ++ ")" ++ castSuffix type
  | .min e => "MIN(" ++ scope e ++ ")"
  | .max e => "MAX(" ++ scope e ++ ")"

end Output

end NeutralQuery.Sql
