import NeutralQuery.Operator.Capability
import NeutralQuery.Plan.Basic
import NeutralQuery.Scalar.Cast

namespace NeutralQuery.Document

/-- A clause on one field of a document. -/
inductive Test where
  | eq (v : Value)
  | ne (v : Value)
  | isIn (values : List Value)
  | notIn (values : List Value)
  | gt (v : Value)
  | gte (v : Value)
  | lt (v : Value)
  | lte (v : Value)
  /-- A pattern that letter case does not matter to. -/
  | like (pattern : String)
  | unlike (pattern : String)

/-- A query on documents. -/
inductive Match where
  | all
  | field (path : String) (t : Test)
  | and (clauses : List Match)
  | or (clauses : List Match)

def patternDocument (pattern : String) : Value :=
  .document [("$regex", .text pattern), ("$options", .text "i")]

def Test.document : Test → Value
  | .eq v => .document [("$eq", v)]
  | .ne v => .document [("$ne", v)]
  | .isIn vs => .document [("$in", .list vs)]
  | .notIn vs => .document [("$nin", .list vs)]
  | .gt v => .document [("$gt", v)]
  | .gte v => .document [("$gte", v)]
  | .lt v => .document [("$lt", v)]
  | .lte v => .document [("$lte", v)]
  | .like pattern => patternDocument pattern
  | .unlike pattern => .document [("$not", patternDocument pattern)]

mutual

def Match.document : Match → Value
  | .all => .document []
  | .field path t => .document [(path, t.document)]
  | .and clauses => .document [("$and", .list (clauseDocuments clauses))]
  | .or clauses => .document [("$or", .list (clauseDocuments clauses))]

def clauseDocuments : List Match → List Value
  | [] => []
  | m :: ms => m.document :: clauseDocuments ms

end

def stored : Value → Value
  | .uuid u => .text u.text
  | .ulid u => .text u.text
  | v => v

def metaCharacters : List Char := "\\.+*?()|[]\x7b\x7d^$".toList

def quotePattern (s : String) : String :=
  Text.mapChars (fun c => if metaCharacters.contains c then ['\\', c] else [c]) s

def specifiedMatch (ref : FieldRef) (p : Predicate) : Outcome Match :=
  match Cast.toBool p.value with
  | .error e => .error (.query .conversion p.field "" (some p.value) .needsBoolean (some (.cast e)))
  | .ok true => .ok (.field ref.location (.ne .null))
  | .ok false =>
    if !ref.leftJoin || ref.parentLocation == "" then .ok (.field ref.location (.eq .null))
    else .ok (.and [.field ref.parentLocation (.ne .null), .field ref.location (.eq .null)])

/-- The query of a predicate on a resolved field. A value that is null matches missing fields, and
an array field matches when one of its members does. -/
def predicateMatch (ref : FieldRef) (p : Predicate) : Outcome Match :=
  let on := fun t => .ok (.field ref.location t)
  let text := quotePattern p.value.plain
  match p.operator with
  | .equal =>
    match p.values with
    | [v] => on (.eq (stored v))
    | vs => on (.isIn (vs.map stored))
  | .notEqual =>
    match p.values with
    | [v] => on (.ne (stored v))
    | vs => on (.notIn (vs.map stored))
  | .greaterThan => on (.gt (stored p.value))
  | .greaterThanOrEqual => on (.gte (stored p.value))
  | .lessThan => on (.lt (stored p.value))
  | .lessThanOrEqual => on (.lte (stored p.value))
  | .contain => on (.like text)
  | .startWith => on (.like ("^" ++ text))
  | .endWith => on (.like (text ++ "$"))
  | .doesNotContain => on (.unlike text)
  | .specified => specifiedMatch ref p
  | op => .error (.unsupported p.field op.token (.notImplemented Capabilities.document.backend))

def ofPredicate (fields : FieldTable) (p : Predicate) : Outcome Match :=
  match fields.find? p.field with
  | none => .error (.unresolvable p.field .notResolved)
  | some ref => predicateMatch ref p

mutual

def ofFilter (fields : FieldTable) : Filter → Outcome Match
  | .all => .ok .all
  | .predicate p => ofPredicate fields p
  | .and operands => (ofFilters fields operands).map .and
  | .or operands => (ofFilters fields operands).map .or

def ofFilters (fields : FieldTable) : List Filter → Outcome (List Match)
  | [] => .ok []
  | f :: fs =>
    match ofFilter fields f with
    | .error e => .error e
    | .ok m => (ofFilters fields fs).map (m :: ·)

end

end NeutralQuery.Document
