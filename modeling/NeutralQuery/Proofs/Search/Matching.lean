import NeutralQuery.Proofs.Filter.Answers
import NeutralQuery.Proofs.Memory.Safety
import NeutralQuery.Proofs.Plan.Rendering
import NeutralQuery.Proofs.Plan.Tags
import NeutralQuery.Proofs.Sql.Bindings

namespace NeutralQuery.Search

/-- A query on documents of an index. -/
inductive Query where
  | all
  | term (field : String) (v : Value)
  | terms (field : String) (values : List Value)
  | present (field : String)
  /-- The values between two ends, where an end that is null leaves its side open. -/
  | range (field : String) (lo hi : Value) (withLo withHi : Bool)
  | wildcard (field pattern : String)
  | beginning (field text : String)
  /-- Every query of the first list holds, at least a number of the second, and none of the
  third. -/
  | bool (filter should mustNot : List Query) (minimum : Nat)

/-- What an index says of present values: how one compares with another, and whether a text matches
a pattern with wildcards or begins with a text. -/
structure Matcher where
  compare : Operator → Value → Value → Bool
  wildcard : Value → String → Bool
  beginning : Value → String → Bool

/-- Whether a value lies between two ends. -/
def Matcher.within (matcher : Matcher) (a lo hi : Value) (withLo withHi : Bool) : Bool :=
  (lo.isNull || matcher.compare (if withLo then .greaterThanOrEqual else .greaterThan) a lo) &&
    (hi.isNull || matcher.compare (if withHi then .lessThanOrEqual else .lessThan) a hi)

mutual

/-- Whether a query holds of a document, given by the values at its paths. A field that is missing
or null is not present, and no comparison holds of it. -/
def Query.holds (matcher : Matcher) (document : String → Option Value) : Query → Bool
  | .all => true
  | .term field v =>
    let a := (document field).getD .null
    !a.isNull && matcher.compare .equal a v
  | .terms field vs =>
    let a := (document field).getD .null
    !a.isNull && vs.any (matcher.compare .equal a)
  | .present field => !((document field).getD .null).isNull
  | .range field lo hi withLo withHi =>
    let a := (document field).getD .null
    !a.isNull && matcher.within a lo hi withLo withHi
  | .wildcard field pattern =>
    let a := (document field).getD .null
    !a.isNull && matcher.wildcard a pattern
  | .beginning field text =>
    let a := (document field).getD .null
    !a.isNull && matcher.beginning a text
  | .bool filter should mustNot minimum =>
    (verdicts matcher document filter).all id &&
      decide (minimum ≤ (verdicts matcher document should).count true) &&
      !(verdicts matcher document mustNot).any id

def verdicts (matcher : Matcher) (document : String → Option Value) : List Query → List Bool
  | [] => []
  | q :: qs => q.holds matcher document :: verdicts matcher document qs

end

def readText? : Value → Option (String × String)
  | .record [(field, .record [("value", .text text), ("case_insensitive", .bool true)])] =>
    some (field, text)
  | _ => none

def readRange? : Value → Option Query
  | .record [(field, .record [("from", lo), ("to", hi), ("include_lower", .bool withLo),
      ("include_upper", .bool withHi)])] => some (.range field lo hi withLo withHi)
  | _ => none

def readLeaf? : String → Value → Option Query
  | "match_all", .record [] => some .all
  | "term", .record [(field, v)] => some (.term field v)
  | "terms", .record [(field, .list vs)] => some (.terms field vs)
  | "exists", .record [("field", .text field)] => some (.present field)
  | "range", v => readRange? v
  | "wildcard", v => (readText? v).map fun t => .wildcard t.1 t.2
  | "prefix", v => (readText? v).map fun t => .beginning t.1 t.2
  | _, _ => none

/-- The parts of a query that is made of others. -/
structure Parts where
  filter : List Query := []
  should : List Query := []
  mustNot : List Query := []
  minimum : Nat := 0

def Parts.query (parts : Parts) : Query :=
  .bool parts.filter parts.should parts.mustNot parts.minimum

def Parts.add? (key : String) (qs : List Query) (parts : Parts) : Option Parts :=
  match key with
  | "filter" => some { parts with filter := qs }
  | "should" => some { parts with should := qs }
  | "must_not" => some { parts with mustNot := qs }
  | _ => none

mutual

def Query.read? : Value → Option Query
  | .record [("bool", .record entries)] => (readParts? entries).map Parts.query
  | .record [(kind, v)] => readLeaf? kind v
  | _ => none

/-- The parts under their names, each a list of queries or a single one. -/
def readParts? : List (String × Value) → Option Parts
  | [] => some {}
  | ("minimum_should_match", .text "1") :: rest =>
    (readParts? rest).map fun parts => { parts with minimum := 1 }
  | (key, .list vs) :: rest =>
    match readAll? vs, readParts? rest with
    | some qs, some parts => parts.add? key qs
    | _, _ => none
  | (key, v) :: rest =>
    match Query.read? v, readParts? rest with
    | some q, some parts => parts.add? key [q]
    | _, _ => none

def readAll? : List Value → Option (List Query)
  | [] => some []
  | v :: vs =>
    match Query.read? v, readAll? vs with
    | some q, some qs => some (q :: qs)
    | _, _ => none

end

attribute [local simp] Query.read? readParts? readAll?

def Bound.query (field : String) (v : Value) : Bound → Query
  | .above => .range field v .null false true
  | .from => .range field v .null true true
  | .below => .range field .null v true false
  | .upTo => .range field .null v true true

mutual

/-- The query that a clause is written for. -/
def Clause.query : Clause → Query
  | .all => .all
  | .term field v => .term field v
  | .terms field vs => .terms field vs
  | .present field => .present field
  | .range field bound v => bound.query field v
  | .wildcard field pattern => .wildcard field pattern
  | .beginning field text => .beginning field text
  | .every clauses => .bool (queries clauses) [] [] 0
  | .either clauses => .bool [] (queries clauses) [] 1
  | .without clause => .bool [] [] [clause.query] 0
  | .presentWithout field clause => .bool [.present field] [] [clause.query] 0

def queries : List Clause → List Query
  | [] => []
  | c :: cs => c.query :: queries cs

end

theorem Clause.body_eq_record (c : Clause) : ∃ entries, c.body = .record entries := by
  cases c <;> exact ⟨_, rfl⟩

theorem Query.read?_bool (h : readParts? entries = some parts) :
    Query.read? (single "bool" (.record entries)) = some parts.query := by
  rw [single, Query.read?, h]
  rfl

theorem readAll?_bodies {cs : List Clause} (h : ∀ c ∈ cs, Query.read? c.body = some c.query) :
    readAll? (clauseBodies cs) = some (queries cs) := by
  induction cs with
  | nil => rw [clauseBodies, readAll?, queries]
  | cons c cs ih =>
    obtain ⟨hc, hcs⟩ := List.forall_mem_cons.1 h
    rw [clauseBodies, readAll?, hc, ih hcs, queries]

theorem readParts?_single {c : Clause} (h : Query.read? c.body = some c.query)
    (hr : readParts? rest = some parts) :
    readParts? ((key, c.body) :: rest) = parts.add? key [c.query] := by
  obtain ⟨body, hb⟩ := c.body_eq_record
  rw [hb] at h ⊢
  rw [readParts?, h, hr]
  · intro items he
    cases he
  · intro text he
    cases he

theorem readParts?_clauseEntry {cs : List Clause}
    (h : ∀ c ∈ cs, Query.read? c.body = some c.query) (hr : readParts? rest = some parts)
    (hn : parts.add? key [] = some parts) :
    readParts? (clauseEntry key (clauseBodies cs) ++ rest) = parts.add? key (queries cs) := by
  match cs with
  | [] => exact hr.trans hn.symm
  | [c] => exact readParts?_single (h c List.mem_cons_self) hr
  | c :: d :: cs =>
    have hall : readParts? ((key, .list (clauseBodies (c :: d :: cs))) :: rest) =
        parts.add? key (queries (c :: d :: cs)) := by
      rw [readParts?, readAll?_bodies h, hr]
    exact hall

theorem readParts?_nil : readParts? [] = some {} := by
  simp

theorem readParts?_minimum :
    readParts? [("minimum_should_match", .text "1")] = some { minimum := 1 } := by
  rw [readParts?, readParts?_nil]
  rfl

theorem Clause.read?_present (field : String) :
    Query.read? (Clause.present field).body = some (Clause.present field).query := by
  rw [body, presentBody, single, Query.read?]
  · rfl
  · exact nofun

mutual

theorem Clause.read?_body : ∀ c : Clause, Query.read? c.body = some c.query
  | .all => by
    rw [body, single, Query.read?]
    · rfl
    · exact nofun
  | .term field v => by
    rw [body, single, Query.read?]
    · rfl
    · exact nofun
  | .terms field vs => by
    rw [body, single, Query.read?]
    · rfl
    · exact nofun
  | .present field => Clause.read?_present field
  | .range field bound v => by
    rw [body, single, Query.read?]
    · cases bound <;> rfl
    · exact nofun
  | .wildcard field pattern => by
    rw [body, single, Query.read?]
    · rfl
    · exact nofun
  | .beginning field text => by
    rw [body, single, Query.read?]
    · rfl
    · exact nofun
  | .every clauses => by
    have hparts : readParts? (clauseEntry "filter" (clauseBodies clauses) ++ []) =
        some { filter := queries clauses } :=
      readParts?_clauseEntry (Clause.read?_bodies clauses) readParts?_nil rfl
    rw [List.append_nil] at hparts
    exact Query.read?_bool hparts
  | .either clauses => by
    have hparts : readParts? (clauseEntry "should" (clauseBodies clauses) ++
        [("minimum_should_match", .text "1")]) =
        some { should := queries clauses, minimum := 1 } :=
      readParts?_clauseEntry (Clause.read?_bodies clauses) readParts?_minimum rfl
    exact Query.read?_bool hparts
  | .without clause => by
    have hparts : readParts? [("must_not", clause.body)] = some { mustNot := [clause.query] } :=
      readParts?_single (Clause.read?_body clause) readParts?_nil
    exact Query.read?_bool hparts
  | .presentWithout field clause => by
    have hpresent : Query.read? (Clause.present field).body = some (Clause.present field).query :=
      Clause.read?_present field
    have hrest : readParts? [("must_not", clause.body)] = some { mustNot := [clause.query] } :=
      readParts?_single (Clause.read?_body clause) readParts?_nil
    have hparts : readParts? [("filter", presentBody field), ("must_not", clause.body)] =
        some { filter := [.present field], mustNot := [clause.query] } :=
      readParts?_single hpresent hrest
    exact Query.read?_bool hparts

theorem Clause.read?_bodies : ∀ cs : List Clause, ∀ c ∈ cs, Query.read? c.body = some c.query
  | [] => nofun
  | c :: cs => List.forall_mem_cons.2 ⟨Clause.read?_body c, Clause.read?_bodies cs⟩

end

attribute [local simp] Clause.query queries Query.holds verdicts

section

variable {matcher : Matcher} {document : String → Option Value}

theorem verdicts_queries (cs : List Clause) :
    verdicts matcher document (queries cs) = cs.map fun c => c.query.holds matcher document := by
  induction cs with
  | nil => rfl
  | cons c cs ih => rw [queries, verdicts, ih, List.map_cons]

theorem holds_every (cs : List Clause) :
    (Clause.every cs).query.holds matcher document =
      cs.all fun c => c.query.holds matcher document := by
  rw [Clause.query, Query.holds, verdicts_queries, List.all_map]
  simp

theorem holds_either (cs : List Clause) :
    (Clause.either cs).query.holds matcher document =
      cs.any fun c => c.query.holds matcher document := by
  rw [Clause.query, Query.holds, verdicts_queries, Bool.eq_iff_iff]
  simp [List.one_le_count_iff]

theorem holds_without (c : Clause) :
    (Clause.without c).query.holds matcher document = !c.query.holds matcher document := by
  simp

theorem holds_presentWithout (field : String) (c : Clause) :
    (Clause.presentWithout field c).query.holds matcher document =
      (!((document field).getD .null).isNull && !c.query.holds matcher document) := by
  simp

theorem interprets (matcher : Matcher) (document : String → Option Value) (fields : FieldTable) :
    Filter.Interprets (ofPredicate fields) (ofFilter fields) (ofFilters fields)
      (fun c => c.query.holds matcher document) where
  all h := by
    cases h
    rfl
  predicate _ := rfl
  and h := by
    obtain ⟨cs, hcs, rfl⟩ := map_eq_ok h
    exact ⟨cs, hcs, holds_every cs⟩
  or h := by
    obtain ⟨cs, hcs, rfl⟩ := map_eq_ok h
    exact ⟨cs, hcs, holds_either cs⟩
  nil := rfl
  cons h := by
    rw [ofFilters] at h
    split at h
    · cases h
    · next c hc =>
      obtain ⟨rest, hr, rfl⟩ := map_eq_ok h
      exact ⟨c, rest, hc, hr, rfl⟩

end

theorem isNull_indexed (v : Value) : (indexed v).isNull = v.isNull := by
  cases v <;> rfl

/-- The operator that a range stands for. -/
def Bound.operator : Bound → Operator
  | .above => .greaterThan
  | .from => .greaterThanOrEqual
  | .below => .lessThan
  | .upTo => .lessThanOrEqual

/-- What an index says of a value in a document and a literal. -/
def Matcher.verdict (matcher : Matcher) (o : Operator) (a w : Value) : Bool :=
  match o with
  | .contain => matcher.wildcard a ("*" ++ quoteWildcards w.plain ++ "*")
  | .startWith => matcher.beginning a w.plain
  | .endWith => matcher.wildcard a ("*" ++ quoteWildcards w.plain)
  | o => matcher.compare o a (indexed w)

section

variable {matcher : Matcher} {document : String → Option Value} {p : Predicate} {field : String}
variable {values : List Value}

theorem range_holds (bound : Bound) (ha : (document field).getD .null = a) (hv : v.isNull = false) :
    (Clause.range field bound v).query.holds matcher document =
      (!a.isNull && matcher.compare bound.operator a v) := by
  have hnull : Value.null.isNull = true := rfl
  cases bound <;>
    simp [Bound.query, Bound.operator, Matcher.within, ha, hv, hnull]

theorem any_concrete (f : Value → Bool) :
    (concrete values).any f = values.any fun w => !w.isNull && f (indexed w) := by
  rw [concrete, List.any_map, List.any_filter]
  rfl

theorem oneOf_holds (vs : List Value) (ha : (document field).getD .null = a) :
    (oneOf field vs).query.holds matcher document =
      (!a.isNull && vs.any (matcher.compare .equal a)) := by
  unfold oneOf
  split
  · rw [Clause.query, Query.holds, ha, List.any_cons, List.any_nil, Bool.or_false]
  · rw [Clause.query, Query.holds, ha]

theorem missing_holds (ha : (document field).getD .null = a) :
    (missing field).query.holds matcher document = a.isNull := by
  rw [missing, holds_without, Clause.query, Query.holds, ha, Bool.not_not]

/-- Whether an index finds a value among the literals, null where it is one of them. -/
def Matcher.finds (matcher : Matcher) (a : Value) (values : List Value) : Bool :=
  if a.isNull then values.any Value.isNull
  else values.any fun w => !w.isNull && matcher.compare .equal a (indexed w)

theorem finds_null (ha : a.isNull = true) :
    matcher.finds a values = values.any Value.isNull := by
  rw [Matcher.finds, if_pos ha]

theorem oneOf_concrete (ha : (document field).getD .null = a) :
    (oneOf field (concrete values)).query.holds matcher document =
      (!a.isNull && matcher.finds a values) := by
  rw [oneOf_holds _ ha, any_concrete, Matcher.finds]
  cases a.isNull <;> rfl

theorem finds_of_isEmpty (h : (concrete values).isEmpty = true) (ha : a.isNull = false) :
    matcher.finds a values = false := by
  rw [Matcher.finds, ha, if_neg Bool.false_ne_true,
    ← any_concrete (matcher.compare .equal a), List.isEmpty_iff.1 h]
  rfl

theorem equalClause_holds (ha : (document field).getD .null = a) :
    (equalClause field values).query.holds matcher document = matcher.finds a values := by
  simp only [equalClause]
  cases hv : values.any Value.isNull with
  | false =>
    rw [Bool.not_false, if_pos rfl, oneOf_concrete ha]
    cases hn : a.isNull with
    | true => rw [finds_null hn, hv]; rfl
    | false => rfl
  | true =>
    rw [Bool.not_true, if_neg Bool.false_ne_true]
    cases he : (concrete values).isEmpty with
    | true =>
      rw [if_pos rfl, missing_holds ha]
      cases hn : a.isNull with
      | true => rw [finds_null hn, hv]
      | false => rw [finds_of_isEmpty he hn]
    | false =>
      rw [if_neg Bool.false_ne_true, holds_either, List.any_cons, List.any_cons, List.any_nil,
        oneOf_concrete ha, missing_holds ha]
      cases hn : a.isNull with
      | true => rw [finds_null hn, hv]; rfl
      | false => cases matcher.finds a values <;> rfl

theorem notEqualClause_holds (field : String) (values : List Value) :
    (notEqualClause field values).query.holds matcher document =
      !(equalClause field values).query.holds matcher document := by
  simp only [notEqualClause, equalClause]
  split
  · exact holds_without _
  · split
    · rw [missing, holds_without, Bool.not_not]
    · rw [holds_presentWithout, holds_either, List.any_cons, List.any_cons, List.any_nil,
        missing_holds rfl, Bool.or_false, Bool.not_or, Bool.and_comm]

theorem range_eq_finds (bound : Bound) (hp : p.Typed type) (ho : p.operator = bound.operator)
    (ha : (document field).getD .null = a) :
    (Clause.range field bound (indexed p.value)).query.holds matcher document =
      p.finds (matcher.verdict bound.operator a) a := by
  have hr : p.operator.isOrdering = true := by
    rw [ho]
    cases bound <;> rfl
  have hverdict : matcher.verdict bound.operator a p.value =
      matcher.compare bound.operator a (indexed p.value) := by
    cases bound <;> rfl
  obtain ⟨hn, hf⟩ := hp.finds_eq (.inl hr) (matcher.verdict bound.operator a) a
  rw [range_holds bound ha ((isNull_indexed _).trans hn), hf, hverdict]

theorem predicateClause_holds (hp : p.Typed type) (hs : p.operator ≠ .specified)
    (ha : (document field).getD .null = a) (h : predicateClause field p = .ok c) :
    c.query.holds matcher document = p.answer (matcher.verdict p.operator.affirmed a) a := by
  have hequal (ho : p.operator.affirmed = .equal) :
      matcher.finds a p.values = p.finds (matcher.verdict .equal a) a := by
    rw [Matcher.finds, Predicate.finds, ho]
    rfl
  have htext (o : Operator) (ho : p.operator.isTextMatch = true) :
      p.finds (matcher.verdict o a) a = (!a.isNull && matcher.verdict o a p.value) :=
    (hp.finds_eq (.inr ho) _ a).2
  rw [predicateClause] at h
  rw [Predicate.answer]
  cases ho : p.operator with
  | specified => exact absurd ho hs
  | or | group | other _ =>
    rw [ho] at h
    cases h
  | equal =>
    simp only [ho] at h
    cases h
    rw [equalClause_holds ha, hequal (by rw [ho]; rfl)]
    exact (Bool.bne_false _).symm
  | notEqual =>
    simp only [ho] at h
    cases h
    rw [notEqualClause_holds, equalClause_holds ha, hequal (by rw [ho]; rfl)]
    exact (Bool.bne_true _).symm
  | greaterThan =>
    simp only [ho] at h
    cases h
    exact (range_eq_finds .above hp ho ha).trans (Bool.bne_false _).symm
  | greaterThanOrEqual =>
    simp only [ho] at h
    cases h
    exact (range_eq_finds .from hp ho ha).trans (Bool.bne_false _).symm
  | lessThan =>
    simp only [ho] at h
    cases h
    exact (range_eq_finds .below hp ho ha).trans (Bool.bne_false _).symm
  | lessThanOrEqual =>
    simp only [ho] at h
    cases h
    exact (range_eq_finds .upTo hp ho ha).trans (Bool.bne_false _).symm
  | contain | startWith | endWith =>
    simp only [ho] at h
    cases h
    rw [Clause.query, Query.holds, ha, htext _ (by rw [ho]; rfl)]
    exact (Bool.bne_false _).symm
  | doesNotContain =>
    simp only [ho] at h
    cases h
    rw [holds_without, Clause.query, Query.holds, ha, htext _ (by rw [ho]; rfl)]
    exact (Bool.bne_true _).symm

end

end NeutralQuery.Search

namespace NeutralQuery

/-- A predicate that asks for absence across a left join asks for it at the dotted path instead. -/
def Predicate.dotted (p : Predicate) : Predicate :=
  match p.operator, Cast.toBool p.value, FieldPath.parse p.field with
  | .specified, .ok false, .ok path =>
    if path.leftJoin then { p with field := path.location } else p
  | _, _, _ => p

namespace Predicate

variable {p : Predicate}

theorem dotted_of_ne (hs : p.operator ≠ .specified) : p.dotted = p := by
  rw [dotted]
  split
  · next ho _ _ => exact absurd ho hs
  · rfl

theorem dotted_true (hb : Cast.toBool p.value = .ok true) : p.dotted = p := by
  rw [dotted]
  split
  · next hf _ => cases hb.symm.trans hf
  · rfl

theorem dotted_false (ho : p.operator = .specified) (hb : Cast.toBool p.value = .ok false)
    (hp : FieldPath.parse p.field = .ok path) :
    p.dotted = if path.leftJoin then { p with field := path.location } else p := by
  simp only [dotted, ho, hb, hp]

end Predicate

theorem FieldPath.not_mem_location (h : parse written = .ok p) : '<' ∉ p.location.toList := by
  intro hm
  rcases parse_cases h with ⟨hl, hw⟩ | ⟨hl, _⟩
  · rw [← hw] at hm
    rw [(leftJoin_iff h).2 hm] at hl
    cases hl
  · rw [location_unmarked h hl] at hm
    obtain ⟨c, _, hc⟩ := List.mem_map.1 hm
    exact Text.unmarked_ne c hc

section

variable {context : Context} {raw : String}

theorem Context.field_unmarked (hn : '<' ∉ raw.toList) : context.field raw = context.get raw := by
  rw [field, get]
  split
  · rfl
  · split
    · split
      · next path hp =>
        rw [if_neg fun hl => hn ((FieldPath.leftJoin_iff hp).1 hl)]
      · rfl
    · rfl

theorem Filter.isSpecified_unmarked {p : Predicate} (hb : p.value = .bool false)
    (hn : '<' ∉ p.field.toList) : isSpecified context p v = .ok v.isNull := by
  cases hp : FieldPath.parse p.field with
  | ok path =>
    have hl : path.leftJoin = false :=
      Bool.eq_false_iff.2 fun hl => hn ((FieldPath.leftJoin_iff hp).1 hl)
    exact isSpecified_false hb hp hl
  | error e =>
    have hbool : Cast.toBool p.value = .ok false := by rw [hb]; rfl
    simp only [isSpecified, hbool, hp]

end

namespace Search

/-- A document of an index and a record agree on a field. The record holds a value there that is no
list, the document has what is indexed of it, or nothing in place of null, and where the path is
marked the record has a value at the dotted path exactly when it holds one. -/
structure Mirrors (document : String → Option Value) (context : Context) (ref : FieldRef)
    (v : Value) : Prop where
  holds : context.Holds ref v
  single : ∀ items, v ≠ .list items
  value : (document ref.location).getD .null = indexed v
  dotted : ref.leftJoin = true → ∃ w, context.get ref.location = .ok w ∧ w.isNull = v.isNull

variable {matcher : Matcher} {document : String → Option Value} {context : Context}

theorem specifiedClause_holds {p : Predicate} (hp : p.Typed type) (ho : p.operator = .specified)
    (hpath : FieldPath.parse p.field = .ok path) (hleft : ref.leftJoin = path.leftJoin)
    (hloc : ref.location = path.location) (hf : context.field p.field = .ok v)
    (hm : Mirrors document context ref v) (h : specifiedClause ref.location p = .ok c) :
    Filter.holdsPredicate .standard context p.dotted = .ok (c.query.holds matcher document) := by
  obtain ⟨b, hb⟩ := Filter.specified_literal hp ho
  have hbool : Cast.toBool p.value = .ok b := by rw [hb]; rfl
  have hnull : (indexed v).isNull = v.isNull := isNull_indexed v
  simp only [specifiedClause, hbool] at h
  cases b with
  | true =>
    cases h
    rw [Predicate.dotted_true hbool, Filter.holdsPredicate_specified ho hf,
      Filter.isSpecified_true hb, ← hnull, Clause.query, Query.holds, hm.value]
  | false =>
    cases h
    rw [Predicate.dotted_false ho hbool hpath, missing_holds hm.value, hnull]
    cases hl : path.leftJoin with
    | false =>
      rw [if_neg Bool.false_ne_true, Filter.holdsPredicate_specified ho hf,
        Filter.isSpecified_false hb hpath hl]
    | true =>
      have hunmarked := FieldPath.not_mem_location hpath
      obtain ⟨w, hg, hw⟩ := hm.dotted (hleft.trans hl)
      have hfield : context.field path.location = .ok w := by
        rw [Context.field_unmarked hunmarked, ← hloc]
        exact hg
      rw [if_pos rfl, ← hw]
      exact (Filter.holdsPredicate_specified (p := { p with field := path.location }) ho
        hfield).trans (Filter.isSpecified_unmarked hb hunmarked)

theorem ofPredicate_holds {p : Predicate} (hr : p.ResolvedAt catalog root fields ref)
    (ht : ref.type.isConcrete = true) (hm : Mirrors document context ref v)
    (hc : p.operator ≠ .specified → p.Decides ref.type v ∧
      p.Agrees v (matcher.verdict p.operator.affirmed (indexed v)))
    (h : ofPredicate fields p = .ok c) :
    Filter.holdsPredicate .standard context p.dotted = .ok (c.query.holds matcher document) := by
  obtain ⟨path, lookups, hpath, hof⟩ := hr.source
  obtain ⟨hraw, _, hloc, hleft, _⟩ := Resolution.ofPath_eq_ok hof
  have hp := hr.typed ht
  have hwritten : ref.raw = p.field := hraw.trans (FieldPath.raw_of_parse hpath)
  have hfield : context.field p.field = .ok v := by
    rw [← hwritten]
    exact Context.field_of_holds hm.holds (hwritten ▸ hpath) hloc
  simp only [ofPredicate, hr.found] at h
  by_cases hs : p.operator = .specified
  · simp only [predicateClause, hs] at h
    exact specifiedClause_holds hp hs hpath hleft hloc hfield hm h
  · have hjudged := hp.judged hs (hc hs).1 (hc hs).2
    rw [Predicate.dotted_of_ne hs, Filter.holdsPredicate_eq_answer hs hfield hm.single hjudged,
      predicateClause_holds hp hs hm.value h, p.answer_congr _ (isNull_indexed v)]

theorem requestOf_clause {stages : List Stage} (hk : ∀ f, .keep f ∉ stages) (r : Request)
    (h : requestOf fields distinct r stages = .ok request) : request.clause = r.clause := by
  induction stages generalizing r with
  | nil =>
    cases h
    rfl
  | cons stage stages ih =>
    have hrest : ∀ f, .keep f ∉ stages := fun f hm => hk f (List.mem_cons_of_mem stage hm)
    rw [requestOf.eq_def] at h
    cases stage with
    | lookup l =>
      simp only at h
      split at h
      · cases h
      · exact ih hrest r h
    | keep f => exact absurd List.mem_cons_self (hk f)
    | group keys accumulators =>
      obtain ⟨metrics, _, rfl⟩ := map_eq_ok h
      rfl
    | having | unknown => cases h
    | _ =>
      have hclause := ih hrest _ h
      exact hclause

theorem requestOf_keep {joins : List Stage} (hj : ∀ stage ∈ joins, stage.IsJoining)
    (hk : ∀ f, .keep f ∉ rest) (hc : ofFilter fields filter = .ok c) (r : Request)
    (h : requestOf fields distinct r (joins ++ .keep filter :: rest) = .ok request) :
    request.clause = c := by
  induction joins generalizing r with
  | nil =>
    rw [List.nil_append, requestOf.eq_def] at h
    simp only [hc] at h
    exact requestOf_clause hk _ h
  | cons stage joins ih =>
    obtain ⟨hstage, hjoins⟩ := List.forall_mem_cons.1 hj
    rw [List.cons_append, requestOf.eq_def] at h
    cases stage with
    | lookup l =>
      simp only at h
      split at h
      · cases h
      · exact ih hjoins r h
    | unwind | rename => exact ih hjoins _ h
    | _ => exact hstage.elim

end Search

theorem Compiler.Compiles.stages_keep
    (h : Compiles c root spec countOnly plan q raws resolution g)
    (hk : .keep filter ∈ plan.stages) :
    ∃ joins rest, plan.stages = joins ++ .keep filter :: rest ∧
      (∀ stage ∈ joins, stage.IsJoining) ∧ ∀ f, .keep f ∉ rest := by
  obtain ⟨_, keep, rest, hkeep, hstages⟩ := h.stages_joins
  obtain ⟨keep', having, hkeep', hhaving, hpick⟩ := h.filterMap_stages
  cases hkeep.symm.trans hkeep'
  have hkept : plan.kept = keep.filterMap Stage.kept? := by
    rw [Plan.kept, hpick Stage.kept? fun _ => Stage.kept?_of_filter?]
    rcases Compile.filterStage_eq_ok hhaving with ⟨_, rfl⟩ | ⟨_, u, _, rfl⟩ <;>
      exact List.append_nil _
  have hm := Plan.mem_kept.2 hk
  rcases Compile.filterStage_eq_ok hkeep with ⟨_, rfl⟩ | ⟨_, t, _, rfl⟩
  · rw [hkept] at hm
    cases hm
  · have hrest : rest.filterMap Stage.kept? = [] := by
      rw [Plan.kept, hstages, List.filterMap_append, List.filterMap_append,
        Compile.filterMap_kept_lookups, List.nil_append] at hkept
      exact List.append_cancel_left (hkept.trans (List.append_nil _).symm)
    rw [hkept] at hm
    cases List.mem_singleton.1 hm
    refine ⟨_, rest, hstages, fun stage hs => Compile.isJoining_of_mem hs, fun f hf => ?_⟩
    have hmem : f ∈ rest.filterMap Stage.kept? := List.mem_filterMap.2 ⟨_, hf, rfl⟩
    rw [hrest] at hmem
    cases hmem

namespace Search

/-- A document of an index and a record agree on the fields that a filter reads, the values there
can be compared with the literals, and the index gives the verdicts of the registry on them as they
are indexed. -/
def Agreement (matcher : Matcher) (document : String → Option Value) (context : Context)
    (plan : Plan) (filter : Filter) : Prop :=
  ∀ p ∈ filter.leaves, ∀ ref, plan.fields.find? p.field = some ref →
    ∃ v, Mirrors document context ref v ∧
      (p.operator ≠ .specified → p.Decides ref.type v ∧
        p.Agrees v (matcher.verdict p.operator.affirmed (indexed v)))

theorem mirrors_row {row : Row} (hraw : ref.raw = ref.location ∨ row.get? ref.raw = none)
    (hl : ∀ items, row.get ref.location ≠ .list items) :
    Mirrors (fun path => (row.get? path).map indexed) (.ofRow row) ref
      (row.get ref.location) where
  holds := Context.holds_ofRow hraw
  single := hl
  value := by
    rw [Row.get]
    cases row.get? ref.location <;> rfl
  dotted _ := ⟨_, Context.get_ofRow row ref.location, rfl⟩

/-- The clause of a plan can be read as a query, and whatever the index, the document and the record
with its values, the query holds of the document exactly when the filter of the plan, with absence
across left joins asked for at dotted paths, holds of the record. -/
theorem clause_iff_evaluate {catalog : Catalog} {root : String} {spec : QuerySpec}
    {countOnly : Bool} {plan : Plan} {filter : Filter}
    (hp : (⟨catalog, .search⟩ : Compiler).run root spec countOnly = .ok plan)
    (hk : .keep filter ∈ plan.stages)
    (ht : ∀ p ∈ filter.leaves, ∀ ref, plan.fields.find? p.field = some ref →
      ref.type.isConcrete = true) :
    ∃ clause query, ofFilter plan.fields filter = .ok clause ∧
      (∀ request, render plan = .ok request → request.clause = clause) ∧
      Query.read? clause.body = some query ∧
      ∀ (matcher : Matcher) (document : String → Option Value) (context : Context),
        Agreement matcher document context plan filter →
        ∃ verdict, (filter.map Predicate.dotted).evaluate .standard context = .ok verdict ∧
          (query.holds matcher document = true ↔ verdict = true) := by
  obtain ⟨_, entity, hshape⟩ := Compiler.kept_resolved hp hk
  obtain ⟨_, _, _, _, hcompiles⟩ := Compiler.run_eq_ok hp
  obtain ⟨clause, hc⟩ := (renders plan.fields).one_ok filter fun p hm =>
    ofPredicate_ok (hcompiles.admitted rfl _ hk filter rfl p hm)
  refine ⟨clause, clause.query, hc, ?_, clause.read?_body, ?_⟩
  · intro request h
    obtain ⟨joins, rest, hstages, hjoins, hrest⟩ := hcompiles.stages_keep hk
    rw [render] at h
    nth_rewrite 2 [hstages] at h
    exact requestOf_keep hjoins hrest hc _ h
  · intro matcher document context hagree
    have hleaves : ∀ p ∈ filter.leaves, ∀ c, ofPredicate plan.fields p = .ok c →
        Filter.holdsPredicate .standard context p.dotted =
          .ok (c.query.holds matcher document) := by
      intro p hm c h
      obtain ⟨ref, href⟩ := hshape.leaves p hm
      obtain ⟨v, hmirrors, hcompared⟩ := hagree p hm ref href.found
      exact ofPredicate_holds href (ht p hm ref href.found) hmirrors hcompared h
    exact ⟨_, (interprets matcher document plan.fields).evaluate_map hleaves hc, Iff.rfl⟩

end Search

namespace Sample

open Search

def namelessBody : Value :=
  .record [("bool", .record [("filter", .list [
    .record [("bool", .record [("must_not",
      .record [("wildcard", .record [("city", .record [("value", .text "*osl*"),
        ("case_insensitive", .bool true)])])])])],
    .record [("bool", .record [("should", .list [
      .record [("range", .record [("id", .record [("from", .ofInt64 3), ("to", .null),
        ("include_lower", .bool false), ("include_upper", .bool true)])])],
      .record [("bool", .record [("must_not",
        .record [("exists", .record [("field", .text "team.name")])])])]]),
      ("minimum_should_match", .text "1")])]])])]

def wildcardChars : List Char → List Char → Bool
  | [], text => text.isEmpty
  | '*' :: pattern, text => text.tails.any (wildcardChars pattern)
  | '?' :: pattern, _ :: text => wildcardChars pattern text
  | c :: pattern, d :: text => c == d && wildcardChars pattern text
  | _ :: _, [] => false

/-- Compares as the registry does and matches texts in any letter case. -/
def index : Search.Matcher where
  compare := Registry.affirms
  wildcard
    | .text s, pattern => wildcardChars (Text.lower pattern).toList (Text.lower s).toList
    | _, _ => false
  beginning
    | .text s, text => Text.startsWith (Text.lower s) (Text.lower text)
    | _, _ => false

def loner : Row := [("city", .text "Bergen"), ("id", .ofInt64 2)]

def lonerDocument (path : String) : Option Value := (loner.get? path).map indexed

theorem loner_matches :
    Search.Agreement index lonerDocument (.ofRow loner) namelessPlan namelessFilter := by
  have hcity : namelessPlan.fields.find? "city" = some cityField := rfl
  have hid : namelessPlan.fields.find? "id" = some idField := rfl
  have hname : namelessPlan.fields.find? "team<name" = some markedField := rfl
  refine List.forall_mem_cons.2 ⟨fun ref h => ?_, List.forall_mem_cons.2 ⟨fun ref h => ?_,
    List.forall_mem_singleton.2 fun ref h => ?_⟩⟩
  · cases hcity.symm.trans h
    refine ⟨_, mirrors_row (.inl rfl) nofun, fun _ => ⟨.inr (.inl rfl), ?_⟩⟩
    refine List.forall_mem_singleton.2 fun b hb => ?_
    cases hb
    decide +kernel
  · cases hid.symm.trans h
    refine ⟨_, mirrors_row (.inl rfl) nofun, fun _ => ⟨.inr (.inl rfl), ?_⟩⟩
    refine List.forall_mem_singleton.2 fun b hb => ?_
    cases hb
    rfl
  · cases hname.symm.trans h
    exact ⟨_, mirrors_row (.inr rfl) nofun, fun hs => absurd rfl hs⟩

end Sample

open Sample

theorem Search.clause_iff_evaluate_loner :
    (⟨catalog, .search⟩ : Compiler).run "person" nameless true = .ok namelessPlan ∧
      (∃ clause, Search.ofFilter namelessPlan.fields namelessFilter = .ok clause ∧
        clause.body = namelessBody) ∧
      namelessFilter.evaluate .standard (.ofRow loner) = .ok false ∧
      (namelessFilter.map Predicate.dotted).evaluate .standard (.ofRow loner) = .ok true ∧
      ∃ query, Search.Query.read? namelessBody = some query ∧
        query.holds index lonerDocument = true := by
  have hk : .keep namelessFilter ∈ namelessPlan.stages := by simp [namelessPlan]
  have he : (namelessFilter.map Predicate.dotted).evaluate .standard (.ofRow loner) =
      .ok true := rfl
  obtain ⟨clause, query, hc, _, hr, hiff⟩ :=
    Search.clause_iff_evaluate (run_nameless_for _) hk nameless_concrete
  have hbody : clause.body = namelessBody := by
    cases hc
    rfl
  obtain ⟨verdict, hv, htrue⟩ := hiff index lonerDocument (.ofRow loner) loner_matches
  cases he.symm.trans hv
  exact ⟨run_nameless_for _, ⟨clause, hc, hbody⟩, rfl, he, query, hbody ▸ hr, htrue.2 rfl⟩

end NeutralQuery
