import NeutralQuery.Operator.Capability
import NeutralQuery.Plan.Basic
import NeutralQuery.Scalar.Cast

namespace NeutralQuery.Search

/-- The side of a value on which a range lies, and whether the value belongs to it. -/
inductive Bound where
  | above
  | from
  | below
  | upTo

inductive Clause where
  | all
  | term (field : String) (v : Value)
  | terms (field : String) (values : List Value)
  | present (field : String)
  | range (field : String) (bound : Bound) (v : Value)
  /-- A pattern with wildcards that letter case does not matter to. -/
  | wildcard (field pattern : String)
  | beginning (field text : String)
  | every (clauses : List Clause)
  | either (clauses : List Clause)
  | without (clause : Clause)
  /-- The field is there and the clause does not hold. -/
  | presentWithout (field : String) (clause : Clause)

def single (key : String) (v : Value) : Value := .record [(key, v)]

def Bound.body (v : Value) : Bound → Value
  | .above => edges v .null false true
  | .from => edges v .null true true
  | .below => edges .null v true false
  | .upTo => edges .null v true true
where
  edges (lo hi : Value) (withLo withHi : Bool) : Value :=
    .record [("from", lo), ("to", hi), ("include_lower", .bool withLo),
      ("include_upper", .bool withHi)]

def anyCase (field text : String) : Value :=
  single field (.record [("value", .text text), ("case_insensitive", .bool true)])

def clauseEntry (name : String) : List Value → List (String × Value)
  | [] => []
  | [clause] => [(name, clause)]
  | clauses => [(name, .list clauses)]

def presentBody (field : String) : Value := single "exists" (single "field" (.text field))

mutual

def Clause.body : Clause → Value
  | .all => single "match_all" (.record [])
  | .term field v => single "term" (single field v)
  | .terms field vs => single "terms" (single field (.list vs))
  | .present field => presentBody field
  | .range field bound v => single "range" (single field (bound.body v))
  | .wildcard field pattern => single "wildcard" (anyCase field pattern)
  | .beginning field text => single "prefix" (anyCase field text)
  | .every clauses => single "bool" (.record (clauseEntry "filter" (clauseBodies clauses)))
  | .either clauses =>
    single "bool" (.record (clauseEntry "should" (clauseBodies clauses) ++
      [("minimum_should_match", .text "1")]))
  | .without clause => single "bool" (single "must_not" clause.body)
  | .presentWithout field clause =>
    single "bool" (.record [("filter", presentBody field), ("must_not", clause.body)])

def clauseBodies : List Clause → List Value
  | [] => []
  | c :: cs => c.body :: clauseBodies cs

end

/-- Identifiers are indexed as text. -/
def indexed : Value → Value
  | .uuid u => .text u.text
  | .ulid u => .text u.text
  | v => v

/-- The operands that are not null. -/
def concrete (values : List Value) : List Value := (values.filter fun v => !v.isNull).map indexed

def oneOf (field : String) : List Value → Clause
  | [v] => .term field v
  | vs => .terms field vs

def missing (field : String) : Clause := .without (.present field)

def equalClause (field : String) (values : List Value) : Clause :=
  let vs := concrete values
  if !values.any Value.isNull then oneOf field vs
  else if vs.isEmpty then missing field
  else .either [oneOf field vs, missing field]

def notEqualClause (field : String) (values : List Value) : Clause :=
  let vs := concrete values
  if !values.any Value.isNull then .without (oneOf field vs)
  else if vs.isEmpty then .present field
  else .presentWithout field (oneOf field vs)

def wildcardCharacters : List Char := ['\\', '*', '?']

def quoteWildcards (s : String) : String :=
  Text.mapChars (fun c => if wildcardCharacters.contains c then ['\\', c] else [c]) s

def specifiedClause (field : String) (p : Predicate) : Outcome Clause :=
  match Cast.toBool p.value with
  | .error e => .error (.query .conversion p.field "" (some p.value) .needsBoolean (some (.cast e)))
  | .ok true => .ok (.present field)
  | .ok false => .ok (missing field)

/-- The clause of a predicate on the field at a location. -/
def predicateClause (field : String) (p : Predicate) : Outcome Clause :=
  let v := indexed p.value
  let text := p.value.plain
  match p.operator with
  | .equal => .ok (equalClause field p.values)
  | .notEqual => .ok (notEqualClause field p.values)
  | .greaterThan => .ok (.range field .above v)
  | .greaterThanOrEqual => .ok (.range field .from v)
  | .lessThan => .ok (.range field .below v)
  | .lessThanOrEqual => .ok (.range field .upTo v)
  | .contain => .ok (.wildcard field ("*" ++ quoteWildcards text ++ "*"))
  | .startWith => .ok (.beginning field text)
  | .endWith => .ok (.wildcard field ("*" ++ quoteWildcards text))
  | .doesNotContain => .ok (.without (.wildcard field ("*" ++ quoteWildcards text ++ "*")))
  | .specified => specifiedClause field p
  | op => .error (.unsupported p.field op.token (.notImplemented Capabilities.search.backend))

def ofPredicate (fields : FieldTable) (p : Predicate) : Outcome Clause :=
  match fields.find? p.field with
  | none => .error (.unresolvable p.field .notResolved)
  | some ref => predicateClause ref.location p

mutual

/-- The clause that a filter stands for. -/
def ofFilter (fields : FieldTable) : Filter → Outcome Clause
  | .all => .ok .all
  | .predicate p => ofPredicate fields p
  | .and operands => (ofFilters fields operands).map .every
  | .or operands => (ofFilters fields operands).map .either

def ofFilters (fields : FieldTable) : List Filter → Outcome (List Clause)
  | [] => .ok []
  | f :: fs =>
    match ofFilter fields f with
    | .error e => .error e
    | .ok c => (ofFilters fields fs).map (c :: ·)

end

end NeutralQuery.Search
