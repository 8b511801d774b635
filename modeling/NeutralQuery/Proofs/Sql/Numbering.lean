import NeutralQuery.Proofs.Sql.Bindings

namespace NeutralQuery.Sql

inductive Piece where
  | plain (s : String)
  | placeholder (n : Nat)

namespace Piece

def text : Piece → String
  | .plain s => s
  | .placeholder n => Condition.placeholder n

def number? : Piece → Option Nat
  | .plain _ => none
  | .placeholder n => some n

def written (pieces : List Piece) : String := String.join (pieces.map text)

/-- The placeholders of a text from left to right. -/
def numbers (pieces : List Piece) : List Nat := pieces.filterMap number?

theorem written_append (ps qs : List Piece) : written (ps ++ qs) = written ps ++ written qs := by
  rw [written, List.map_append, String.join_append]
  rfl

theorem written_cons (p : Piece) (ps : List Piece) : written (p :: ps) = p.text ++ written ps := by
  rw [written, List.map_cons, String.join_cons]
  rfl

theorem numbers_append (ps qs : List Piece) : numbers (ps ++ qs) = numbers ps ++ numbers qs :=
  List.filterMap_append

end Piece

namespace Token

def number? : Token → Option Nat
  | .placeholder n => some n
  | _ => none

def numbers (tokens : List Token) : List Nat := tokens.filterMap number?

def piece (write : Output → String) : Token → Piece
  | .placeholder n => .placeholder n
  | t => .plain (t.text write)

theorem text_piece (write : Output → String) (t : Token) : (t.piece write).text = t.text write := by
  cases t <;> rfl

theorem number?_piece (write : Output → String) (t : Token) :
    (t.piece write).number? = t.number? := by
  cases t <;> rfl

theorem numbers_append (ts us : List Token) : numbers (ts ++ us) = numbers ts ++ numbers us :=
  List.filterMap_append

theorem numbers_pieces (write : Output → String) (ts : List Token) :
    Piece.numbers (ts.map (piece write)) = numbers ts := by
  rw [Piece.numbers, List.filterMap_map, numbers]
  congr 1
  funext t
  exact number?_piece write t

theorem written_pieces (write : Output → String) (ts : List Token) :
    Piece.written (ts.map (piece write)) = Condition.written write ts := by
  rw [Piece.written, List.map_map, Condition.written]
  congr 2
  funext t
  exact text_piece write t

theorem numbers_intercalate {sep : Token} (hsep : sep.number? = none) (parts : List (List Token)) :
    numbers ([sep].intercalate parts) = parts.flatMap numbers := by
  induction parts with
  | nil => rfl
  | cons part parts ih =>
    cases parts with
    | nil => simp
    | cons next parts =>
      rw [List.intercalate_cons_cons, numbers_append, numbers_append, ih, List.flatMap_cons]
      simp [numbers, hsep]

end Token

namespace Condition

open Token

def pieces (write : Output → String) (bound : Nat) (c : Condition) : List Piece :=
  (c.tokens bound).map (piece write)

theorem written_pieces (write : Output → String) (bound : Nat) (c : Condition) :
    Piece.written (c.pieces write bound) = c.text write bound := by
  rw [pieces, Token.written_pieces, text_eq_written]

theorem numbers_enclosed (inner outer : Nat) (tokens : List Token) :
    numbers (enclosedTokens inner outer tokens) = numbers tokens := by
  rw [enclosedTokens]
  split
  · rw [List.cons_append, numbers, List.filterMap_cons_none rfl, List.filterMap_append]
    exact List.append_nil _
  · rfl

theorem numbers_listTokens (ns : List Nat) : numbers (listTokens ns) = ns := by
  rw [listTokens, numbers_intercalate rfl, List.flatMap_map]
  exact List.flatMap_singleton' ns

mutual

/-- The placeholders of a condition follow the ones before it, one for each value that it binds. -/
theorem numbers_tokens : ∀ (c : Condition) (bound : Nat),
    numbers (c.tokens bound) = List.range' (bound + 1) c.params.length
  | .true, _ => rfl
  | .compare _ _ _, _ => rfl
  | .isIn o negated values, bound => by
    have hns : numbers (listTokens ((List.range values.length).map (bound + · + 1))) =
        List.range' (bound + 1) values.length := by
      rw [numbers_listTokens, List.range'_eq_map_range]
      apply List.map_congr_left
      intro i _
      exact Nat.add_right_comm bound i 1
    rw [tokens, params, numbers_append, numbers, List.filterMap_cons_none rfl,
      List.filterMap_cons_none rfl, List.filterMap_cons_none rfl]
    exact (List.append_nil _).trans hns
  | .isLike _ _ _, _ => rfl
  | .isNull _ _, _ => rfl
  | .absentIn _ _, _ => rfl
  | .and operands, bound => by
    rw [tokens, params, numbers_intercalate rfl, numbers_tokensEach operands]
  | .or operands, bound => by
    rw [tokens, params, numbers_intercalate rfl, numbers_tokensEach operands]

theorem numbers_tokensEach : ∀ (cs : List Condition) (outer bound : Nat),
    (tokensEach outer bound cs).flatMap numbers = List.range' (bound + 1) (paramsAll cs).length
  | [], _, _ => rfl
  | c :: cs, outer, bound => by
    rw [tokensEach, paramsAll, List.flatMap_cons, numbers_enclosed, numbers_tokens c bound,
      numbers_tokensEach cs, List.length_append, Nat.add_right_comm, List.range'_append_1]

end

end Condition

section

open Token

variable {f : Frame} {plan : Plan} {p : Predicate} {n count : Nat} {tokens : List Token}

/-- How many values some predicates bind in all. -/
def bindingCount (ps : List Predicate) : Nat := (ps.flatMap bindings).length

theorem bindingCount_append (ps qs : List Predicate) :
    bindingCount (ps ++ qs) = bindingCount ps + bindingCount qs := by
  rw [bindingCount, List.flatMap_append, List.length_append]
  rfl

/-- The condition of a predicate stands among tokens that begin after `n` values have been bound,
and `count` more are bound before it. -/
def Holds (f : Frame) (plan : Plan) (n count : Nat) (p : Predicate) (tokens : List Token) : Prop :=
  ∃ c left right, condition f plan p = .ok c ∧ tokens = left ++ c.tokens (n + count) ++ right ∧
    numbers left = List.range' (n + 1) count

theorem Holds.extend (h : Holds f plan (n + first) count p tokens) (before after : List Token)
    (hb : numbers before = List.range' (n + 1) first) :
    Holds f plan n (first + count) p (before ++ tokens ++ after) := by
  obtain ⟨c, left, right, hc, rfl, hn⟩ := h
  refine ⟨c, before ++ left, right ++ after, hc, ?_, ?_⟩
  · rw [Nat.add_assoc]
    simp only [List.append_assoc]
  · rw [numbers_append, hb, hn, Nat.add_right_comm, List.range'_append_1]

theorem Holds.append (h : Holds f plan n count p tokens) (after : List Token) :
    Holds f plan n count p (tokens ++ after) := by
  obtain ⟨c, left, right, hc, rfl, hn⟩ := h
  exact ⟨c, left, right ++ after, hc, List.append_assoc _ _ _, hn⟩

theorem Holds.enclosed (h : Holds f plan n count p tokens) (inner outer : Nat) :
    Holds f plan n count p (Condition.enclosedTokens inner outer tokens) := by
  rw [Condition.enclosedTokens]
  split
  · have hn : numbers [.opening] = List.range' (n + 1) 0 := rfl
    have he := Holds.extend h [.opening] [.closing] hn
    rwa [Nat.zero_add] at he
  · exact h

theorem append_eq_append_cons {as bs xs ys : List α} (h : as ++ bs = xs ++ y :: ys) :
    (∃ cs, as = xs ++ y :: cs) ∨ ∃ cs, xs = as ++ cs ∧ bs = cs ++ y :: ys := by
  rcases List.append_eq_append_iff.1 h with ⟨cs, hx, hb⟩ | ⟨cs, ha, hy⟩
  · exact .inr ⟨cs, hx, hb⟩
  · cases cs with
    | nil => exact .inr ⟨[], by simp [ha], hy.symm⟩
    | cons z cs =>
      cases hy
      exact .inl ⟨cs, ha⟩

theorem exists_intercalate_cons (sep : Token) (part : List Token) (parts : List (List Token)) :
    ∃ rest, [sep].intercalate (part :: parts) = part ++ rest := by
  cases parts with
  | nil => exact ⟨[], by simp⟩
  | cons next parts =>
    refine ⟨[sep] ++ [sep].intercalate (next :: parts), ?_⟩
    rw [List.intercalate_cons_cons, List.append_assoc]

end

mutual

/-- The condition of each predicate stands in that of its filter. -/
theorem ofFilter_holds {f : Frame} : ∀ {t : Filter} {c : Condition} {before after : List Predicate},
    t.Shaped Predicate.Converted → ofFilter f plan t = .ok c → t.leaves = before ++ p :: after →
      ∀ n, Holds f plan n (bindingCount before) p (c.tokens n)
  | .all, _, before, _, _, _, hl, _ => by
    cases before <;> cases hl
  | .predicate u, c, before, _, _, h, hl, n => by
    cases before with
    | nil =>
      cases hl
      exact ⟨c, [], [], h, (List.append_nil _).symm, rfl⟩
    | cons v before => cases before <;> cases hl
  | .and _, _, _, _, hs, h, hl, n => by
    obtain ⟨cs, hc, rfl⟩ := map_eq_ok h
    exact ofFilters_holds hs.2 hc hl rfl _ n
  | .or _, _, _, _, hs, h, hl, n => by
    obtain ⟨cs, hc, rfl⟩ := map_eq_ok h
    exact ofFilters_holds hs.2 hc hl rfl _ n

theorem ofFilters_holds {f : Frame} : ∀ {ts : List Filter} {cs : List Condition}
    {before after : List Predicate}, Filter.ShapedAll Predicate.Converted ts →
      ofFilters f plan ts = .ok cs → Filter.leavesAll ts = before ++ p :: after →
      ∀ {sep : Token}, sep.number? = none → ∀ outer n, Holds f plan n (bindingCount before) p
        ([sep].intercalate (Condition.tokensEach outer n cs))
  | [], _, before, _, _, _, hl, _, _, _, _ => by
    cases before <;> cases hl
  | t :: ts, _, before, after, hs, h, hl, sep, hsep, outer, n => by
    obtain ⟨c, rest, hc, hr, rfl⟩ := ofFilters_cons h
    rw [Condition.tokensEach]
    -- The leaf is one of the first operand, or one of the others; these are numbered from where the
    -- first operand ends, and the separator before them has no number.
    rcases append_eq_append_cons hl with ⟨after, hone⟩ | ⟨before, rfl, hmany⟩
    · obtain ⟨others, he⟩ := exists_intercalate_cons sep
        (Condition.enclosedTokens c.precedence outer (c.tokens n))
        (Condition.tokensEach outer (n + c.params.length) rest)
      rw [he]
      exact ((ofFilter_holds hs.1 hc hone n).enclosed _ _).append others
    · have hparams : c.params.length = bindingCount t.leaves := by
        rw [ofFilter_params hs.1 hc]
        rfl
      have hrest := ofFilters_holds hs.2 hr hmany hsep outer (n + c.params.length)
      match ts, rest, hr, hmany, hrest with
      | [], _, _, hmany, _ => cases before <;> cases hmany
      | _ :: _, rest, hr, _, hrest =>
        obtain ⟨d, ds, _, _, rfl⟩ := ofFilters_cons hr
        rw [Condition.tokensEach] at hrest ⊢
        rw [List.intercalate_cons_cons, bindingCount_append, ← hparams]
        have hb :
            Token.numbers (Condition.enclosedTokens c.precedence outer (c.tokens n) ++ [sep]) =
              List.range' (n + 1) c.params.length := by
          rw [Token.numbers_append, Condition.numbers_enclosed, Condition.numbers_tokens]
          simp [Token.numbers, hsep]
        have hall := hrest.extend _ [] hb
        rwa [List.append_nil] at hall

end

namespace Statement

def subqueryHead (s : Statement) : String :=
  let exposed := (s.identity.text ++ " AS " ++ slotName 0) ::
    s.slots.mapIdx fun i e => e.text ++ " AS " ++ slotName (i + 1)
  "(SELECT DISTINCT ON (" ++ s.identity.text ++ ") " ++ ", ".intercalate exposed ++ " FROM "

/-- What stands before the condition on rows. -/
def sourceHead (s : Statement) : String :=
  (if s.distinct then s.subqueryHead else "") ++
  (s.table ++ " AS " ++ s.rootAlias ++ "".intercalate (s.joins.map fun j => " " ++ j.text)) ++
  (if s.filterText = "" then "" else " WHERE ")

def sourceFoot (s : Statement) : String :=
  if s.distinct then " ORDER BY " ++ s.identity.text ++ ") AS d" else ""

/-- What stands before the condition on groups. -/
def tailHead (s : Statement) : String :=
  (if s.groupBy.isEmpty then "" else " GROUP BY " ++ ", ".intercalate (s.groupBy.map s.scope)) ++
  (if s.having.isSome then " HAVING " else "")

def tailFoot (s : Statement) : String :=
  (match s.orderBy with
    | some keys => " ORDER BY " ++ ", ".intercalate (keys.map s.orderText)
    | none => "") ++
  (match s.limit with
    | some n => " LIMIT " ++ Text.ofInt n
    | none => "") ++
  (match s.offset with
    | some n => " OFFSET " ++ Text.ofInt n
    | none => "")

def countHead (s : Statement) : String :=
  s.countAs.elim "" fun name => "SELECT COUNT(*) AS " ++ identifier name ++ " FROM ("

def countFoot (s : Statement) : String := s.countAs.elim "" fun _ => ") AS c"

def filterPieces (s : Statement) : List Piece := s.filterTokens.map (Token.piece s.rowOutput)

def havingPieces (s : Statement) : List Piece :=
  s.having.elim [] (Condition.pieces (Output.text s.scope) s.filterParams.length)

/-- The text of a statement, cut at the placeholders of its conditions. -/
def pieces (s : Statement) : List Piece :=
  [.plain (s.countHead ++ "SELECT " ++ s.selectionText ++ " FROM " ++ s.sourceHead)] ++
    s.filterPieces ++ [.plain (s.sourceFoot ++ s.tailHead)] ++ s.havingPieces ++
    [.plain (s.tailFoot ++ s.countFoot)]

theorem written_filterPieces (s : Statement) : Piece.written s.filterPieces = s.filterText := by
  rw [filterPieces, Token.written_pieces, filterText_eq]

theorem where_eq (text : String) : (if text = "" then "" else " WHERE " ++ text) =
    (if text = "" then "" else " WHERE ") ++ text := by
  split
  · next he => rw [he, String.append_empty]
  · rfl

theorem subquery_eq (s : Statement) :
    s.subquery = s.subqueryHead ++ s.tables ++ " ORDER BY " ++ s.identity.text ++ ") AS d" :=
  rfl

theorem source_eq (s : Statement) : s.source = s.sourceHead ++ s.filterText ++ s.sourceFoot := by
  rw [source, subquery_eq, tables, where_eq, sourceHead, sourceFoot]
  generalize s.table ++ " AS " ++ s.rootAlias ++ _ = joined
  cases s.distinct with
  | false => simp only [Bool.false_eq_true, if_false, String.empty_append, String.append_empty,
      String.append_assoc]
  | true => simp only [if_true, String.append_assoc]

theorem tail_eq (s : Statement) :
    s.tail = s.tailHead ++ Piece.written s.havingPieces ++ s.tailFoot := by
  have hfoot (text : String) : text ++ s.tailFoot = text ++ (match s.orderBy with
      | some keys => " ORDER BY " ++ ", ".intercalate (keys.map s.orderText)
      | none => "") ++ (match s.limit with
      | some n => " LIMIT " ++ Text.ofInt n
      | none => "") ++ (match s.offset with
      | some n => " OFFSET " ++ Text.ofInt n
      | none => "") := by
    simp only [tailFoot, String.append_assoc]
  rw [tail, hfoot, tailHead, havingPieces]
  congr 3
  rw [String.append_assoc]
  congr 1
  cases s.having with
  | none => rfl
  | some c =>
    rw [Option.elim_some, Condition.written_pieces]
    rfl

theorem written_pieces (s : Statement) : Piece.written s.pieces = s.text := by
  have hplain (t : String) : Piece.written [.plain t] = t := by simp [Piece.written, Piece.text]
  simp only [pieces, Piece.written_append, hplain, written_filterPieces]
  rw [text, select, source_eq, tail_eq, countHead, countFoot]
  cases s.countAs with
  | none => simp only [Option.elim_none, String.empty_append, String.append_empty,
      String.append_assoc]
  | some name => simp only [Option.elim_some, String.append_assoc]

/-- No placeholder stands outside the two conditions. -/
theorem pieces_eq (s : Statement) : ∃ head middle foot,
    s.pieces = head ++ s.filterPieces ++ middle ++ s.havingPieces ++ foot ∧
      Piece.numbers head = [] ∧ Piece.numbers middle = [] ∧ Piece.numbers foot = [] :=
  ⟨_, _, _, rfl, rfl, rfl, rfl⟩

end Statement

namespace Statement

variable {st : Statement} {f : Frame}

theorem numbers_filterPieces (h : st.filters = [] ∨ ∃ c, st.filters = [c]) :
    Piece.numbers st.filterPieces = List.range' 1 st.filterParams.length := by
  rw [filterPieces, Token.numbers_pieces, filterTokens, filterParams]
  rcases h with hn | ⟨c, hc⟩
  · rw [hn]
    rfl
  · rw [hc, List.flatMap_singleton]
    exact Condition.numbers_tokens c 0

theorem numbers_havingPieces (st : Statement) : Piece.numbers st.havingPieces =
    List.range' (st.filterParams.length + 1) (st.having.elim [] Condition.params).length := by
  rw [havingPieces]
  cases st.having with
  | none => rfl
  | some c =>
    rw [Option.elim_some, Option.elim_some, Condition.pieces, Token.numbers_pieces]
    exact Condition.numbers_tokens c _

theorem numbers_params (h : st.filters = [] ∨ ∃ c, st.filters = [c]) :
    Piece.numbers st.pieces = List.range' 1 st.params.length := by
  obtain ⟨head, middle, foot, he, hhead, hmiddle, hfoot⟩ := st.pieces_eq
  simp only [he, Piece.numbers_append, hhead, hmiddle, hfoot, List.nil_append, List.append_nil]
  rw [numbers_filterPieces h, numbers_havingPieces, params, List.length_append, Nat.add_comm _ 1,
    List.range'_append_1]

end Statement

/-- The condition of a predicate stands in a text behind the placeholders of the first `count`
values, and its own placeholders stand for its literals. -/
def Bears (f : Frame) (plan : Plan) (params : List Value) (pieces : List Piece) (count : Nat)
    (p : Predicate) : Prop :=
  ∃ c write left right, condition f plan p = .ok c ∧
    pieces = left ++ c.pieces write count ++ right ∧ Piece.numbers left = List.range' 1 count ∧
    (Piece.numbers (c.pieces write count)).map (fun i => params[i - 1]?) = (bindings p).map some

theorem getElem?_of_range' (before values after : List Value) :
    (List.range' (before.length + 1) values.length).map
      (fun i => (before ++ values ++ after)[i - 1]?) = values.map some := by
  apply List.ext_getElem
  · simp
  · intro i hi hi'
    rw [List.length_map] at hi'
    simp [List.getElem?_append_right, List.getElem?_append_left hi']

theorem Holds.bears {f : Frame} (h : Holds f plan n count p tokens) (hp : p.Converted)
    {write : Output → String} {head foot : List Piece}
    (hpieces : pieces = head ++ tokens.map (Token.piece write) ++ foot)
    (hhead : Piece.numbers head = List.range' 1 n) {before after : List Value}
    (hparams : params = before ++ bindings p ++ after) (hn : before.length = n + count) :
    Bears f plan params pieces (n + count) p := by
  obtain ⟨c, left, right, hc, rfl, hl⟩ := h
  refine ⟨c, write, head ++ left.map (Token.piece write), right.map (Token.piece write) ++ foot, hc,
    ?_, ?_, ?_⟩
  · simp only [hpieces, Condition.pieces, List.map_append, List.append_assoc]
  · rw [Piece.numbers_append, Token.numbers_pieces, hhead, hl, Nat.add_comm n 1,
      List.range'_append_1]
  · rw [Condition.pieces, Token.numbers_pieces, Condition.numbers_tokens, condition_params hp hc,
      ← hn, hparams]
    exact getElem?_of_range' before (bindings p) after

theorem holds_of_rendered {f : Frame} {ts : List Filter} {cs : List Condition}
    (h : List.Forall₂ (Rendered f plan) ts cs) (ht : ts = [] ∨ ∃ t, ts = [t])
    (hl : ts.flatMap Filter.leaves = before ++ p :: after) :
    ∃ c, cs = [c] ∧ ∀ n, Holds f plan n (bindingCount before) p (c.tokens n) := by
  rcases ht with rfl | ⟨t, rfl⟩
  · cases before <;> cases hl
  · obtain ⟨c, _, hc, hn, rfl⟩ := List.forall₂_cons_left_iff.1 h
    cases hn
    rw [List.flatMap_singleton] at hl
    exact ⟨c, rfl, ofFilter_holds hc.1 hc.2 hl⟩

namespace Statement.Of

variable {st : Statement} {f : Frame} {q : Compile.Parsed} {raws : List String}
  {resolution : Resolution} {g : Compile.Grouping}

theorem filters_single (hst : st.Of mapping plan f)
    (h : Compiler.Compiles c root spec countOnly plan q raws resolution g) :
    st.filters = [] ∨ ∃ c, st.filters = [c] := by
  have hf := hst.filters_rendered h
  rcases h.kept_cases with hk | ⟨t, hk⟩
  · rw [hk] at hf
    exact .inl (List.forall₂_nil_left_iff.1 hf)
  · rw [hk] at hf
    obtain ⟨c, _, _, hn, he⟩ := List.forall₂_cons_left_iff.1 hf
    cases hn
    exact .inr ⟨c, he⟩

theorem bears_row (hst : st.Of mapping plan f)
    (h : Compiler.Compiles c root spec countOnly plan q raws resolution g) (hp : p.Converted)
    (hl : plan.kept.flatMap Filter.leaves = before ++ p :: others)
    (hparams : st.params = before.flatMap bindings ++ bindings p ++ after) :
    Bears f plan st.params st.pieces (bindingCount before) p := by
  obtain ⟨c, hc, hholds⟩ := holds_of_rendered (hst.filters_rendered h) h.kept_cases hl
  obtain ⟨head, middle, foot, hpieces, hhead, _⟩ := st.pieces_eq
  have hfilter : st.filterPieces = (c.tokens 0).map (Token.piece st.rowOutput) := by
    rw [filterPieces, filterTokens, hc]
    rfl
  rw [hfilter, List.append_assoc, List.append_assoc] at hpieces
  have hbears := (hholds 0).bears hp hpieces hhead hparams (Nat.zero_add _).symm
  rwa [Nat.zero_add] at hbears

theorem bears_group (hst : st.Of mapping plan f)
    (h : Compiler.Compiles c root spec countOnly plan q raws resolution g) (hp : p.Converted)
    (hl : (Clauses.ofPlan plan).having.toList.flatMap Filter.leaves = before ++ p :: others)
    (hparams : st.params = (plan.kept.flatMap Filter.leaves ++ before).flatMap bindings ++
      bindings p ++ after) :
    Bears f plan st.params st.pieces
      (bindingCount (plan.kept.flatMap Filter.leaves ++ before)) p := by
  have hone : (Clauses.ofPlan plan).having.toList = [] ∨
      ∃ t, (Clauses.ofPlan plan).having.toList = [t] := by
    cases (Clauses.ofPlan plan).having with
    | none => exact .inl rfl
    | some t => exact .inr ⟨t, rfl⟩
  obtain ⟨c, hc, hholds⟩ := holds_of_rendered (hst.having_rendered h) hone hl
  obtain ⟨head, middle, foot, hpieces, hhead, hmiddle, _⟩ := st.pieces_eq
  have hn : st.filterParams.length = bindingCount (plan.kept.flatMap Filter.leaves) := by
    rw [filterParams, params_of_rendered (hst.filters_rendered h)]
    rfl
  have hhaving : st.havingPieces =
      (c.tokens st.filterParams.length).map (Token.piece (Output.text st.scope)) := by
    rw [havingPieces, Option.toList_eq_singleton_iff.1 hc]
    rfl
  rw [hhaving] at hpieces
  have hbefore : Piece.numbers (head ++ st.filterPieces ++ middle) =
      List.range' 1 st.filterParams.length := by
    rw [Piece.numbers_append, Piece.numbers_append, hhead, hmiddle, List.append_nil,
      List.nil_append, numbers_filterPieces (hst.filters_single h)]
  rw [bindingCount_append, ← hn]
  apply (hholds _).bears hp hpieces hbefore hparams
  rw [hn, ← bindingCount_append]
  rfl

end Statement.Of

/-- The placeholders of the statement of a plan are numbered from one in the order of its text, one
for each literal that is not null, and each stands in the condition of the predicate whose literal
has been bound for it. -/
theorem placeholders_in_order {catalog : Catalog} {root : String} {spec : QuerySpec}
    {countOnly : Bool} {plan : Plan} {mapping : Mapping} {query : Query}
    (hp : (⟨catalog, .relational⟩ : Compiler).run root spec countOnly = .ok plan)
    (hr : render mapping plan = .ok query) :
    ∃ st f, statement mapping plan = .ok st ∧ frameOf mapping plan = .ok f ∧
      query.sql = Piece.written st.pieces ∧
      Piece.numbers st.pieces = List.range' 1 query.params.length ∧
      query.params.length = (plan.predicates.flatMap Predicate.literals).length ∧
      ∀ before p after, plan.predicates = before ++ p :: after →
        Bears f plan query.params st.pieces (bindingCount before) p := by
  obtain ⟨st, hst, rfl⟩ := map_eq_ok hr
  obtain ⟨f, hof⟩ := statement_eq_ok hst
  obtain ⟨q, raws, resolution, g, h⟩ := Compiler.run_eq_ok hp
  have hframe : frameOf mapping plan = .ok f := by
    have hjoins := hof.joins
    rw [rootFrame] at hjoins
    rw [frameOf, hjoins]
    rfl
  have hparams := hof.params_eq h
  refine ⟨st, f, hst, hframe, st.written_pieces.symm,
    Statement.numbers_params (hof.filters_single h), ?_, ?_⟩
  · dsimp only
    rw [hparams, List.length_flatMap, List.length_flatMap]
    simp [bindings]
  · intro before p after hl
    have hconverted := h.converted (hl ▸ List.mem_append_right before List.mem_cons_self)
    have hvalues : st.params = before.flatMap bindings ++ bindings p ++ after.flatMap bindings := by
      rw [hparams, hl, List.flatMap_append, List.flatMap_cons, List.append_assoc]
    rw [Plan.predicates, h.filters_eq, List.flatMap_append] at hl
    rcases append_eq_append_cons hl with ⟨others, hrow⟩ | ⟨own, rfl, hgroup⟩
    · exact hof.bears_row h hconverted hrow hvalues
    · exact hof.bears_group h hconverted hgroup hvalues

end NeutralQuery.Sql

namespace NeutralQuery.Sample

open Sql

def highest : QuerySpec where
  criteria := [⟨"city", "NOT_EQUAL", [.text "Oslo", .null, .text "Bergen"]⟩]
  groupBy := ["city"]
  having := [⟨"[max]id", "GREATER_THAN", [.ofInt64 3]⟩]
  distinct := true

def elsewhere : Predicate := ⟨"city", .notEqual, [.text "Oslo", .null, .text "Bergen"]⟩

def aboveThree : Predicate := ⟨"[max]id", .greaterThan, [.ofInt64 3]⟩

def highestNumber : Accumulator := ⟨"max_id", .max, "id", .int, .int⟩

def highestPlan : Plan where
  root := person
  stages := [.keep (.predicate elsewhere), .distinct "id",
    .group [⟨"city", .string⟩] [highestNumber], .having (.predicate aboveThree),
    .project [("city", "city"), ("max_id", "max_id")]]
  fields := [("city", cityField), ("id", idField),
    ("[max]id", Compile.aggregateField "[max]id" ⟨.max, "id"⟩ highestNumber)]
  countOnly := false

theorem run_highest :
    (⟨catalog, .relational⟩ : Compiler).run "person" highest false = .ok highestPlan := by
  let q : Compile.Parsed := ⟨highest, .predicate elsewhere, .predicate aboveThree, [],
    [⟨"[max]id", "id", some ⟨.max, "id"⟩⟩]⟩
  have hq : Compile.read highest = .ok q := rfl
  have hp : q.paths = .ok ["city", "city", "id"] := rfl
  have hr : Resolution.resolve catalog person ["city", "city", "id"] =
      .ok ⟨[], [("city", cityField), ("id", idField)]⟩ := rfl
  have hg : q.grouping [("city", cityField), ("id", idField)] =
      .ok (highestPlan.fields, ⟨[⟨"city", .string⟩], [highestNumber], []⟩) := rfl
  exact Compiler.run_of_steps rfl hq hp hr hg rfl

def highestStatement : Statement where
  table := "people"
  rootAlias := "p_0"
  identity := .column "p_0" "id"
  joins := []
  filters := [.isIn cityColumn true [.text "Oslo", .text "Bergen"]]
  distinct := true
  selection := .items [⟨cityColumn, some "city"⟩, ⟨.max (.column "p_0" "id"), some "max_id"⟩]
  groupBy := [.column "p_0" "city"]
  having := some (.compare (.max (.column "p_0" "id")) .gt (.ofInt64 3))
  orderBy := none
  limit := none
  offset := none
  countAs := none

theorem statement_highest : statement tables highestPlan = .ok highestStatement := rfl

theorem render_highest : render tables highestPlan = .ok ⟨highestStatement.text,
    [.text "Oslo", .text "Bergen", .ofInt64 3], ["city", "max_id"], false⟩ := by
  rw [render, statement_highest]
  rfl

end NeutralQuery.Sample

namespace NeutralQuery.Sql

open Sample

theorem placeholders_in_order_highest :
    (⟨catalog, .relational⟩ : Compiler).run "person" highest false = .ok highestPlan ∧
      statement tables highestPlan = .ok highestStatement ∧
      render tables highestPlan = .ok ⟨highestStatement.text,
        [.text "Oslo", .text "Bergen", .ofInt64 3], ["city", "max_id"], false⟩ ∧
      highestStatement.text =
        "SELECT d.__c1 AS \"city\", MAX(d.__c2) AS \"max_id\" FROM (SELECT DISTINCT ON (p_0.id) " ++
          "p_0.id AS __c0, p_0.city AS __c1, p_0.id AS __c2 FROM people AS p_0 " ++
          "WHERE p_0.city NOT IN ($1, $2) ORDER BY p_0.id) AS d GROUP BY d.__c1 " ++
          "HAVING MAX(d.__c2) > $3" ∧
      Piece.written highestStatement.pieces = highestStatement.text ∧
      Piece.numbers highestStatement.pieces = [1, 2, 3] ∧
      ∃ f, Bears f highestPlan [.text "Oslo", .text "Bergen", .ofInt64 3] highestStatement.pieces
        2 aboveThree := by
  obtain ⟨st, f, hst, _, hsql, hnumbers, _, hbears⟩ :=
    placeholders_in_order run_highest render_highest
  cases statement_highest.symm.trans hst
  exact ⟨run_highest, statement_highest, render_highest, by decide +kernel, hsql.symm, hnumbers, f,
    hbears [elsewhere] aboveThree [] rfl⟩

end NeutralQuery.Sql
