import NeutralQuery.Proofs.Sql.Numbering

namespace NeutralQuery.Sql

/-- A part of a clause: words, or a value of a row, which is folded inside an aggregate. -/
inductive Span where
  | words (s : String)
  | value (e : Expr) (folded : Bool)

namespace Span

def text (name : Expr → String) : Span → String
  | .words s => s
  | .value e _ => name e

def value? : Span → Option Expr
  | .words _ => none
  | .value e _ => some e

def bare? : Span → Option Expr
  | .value e false => some e
  | _ => none

/-- The text of some spans, where `name` names the values. -/
def written (name : Expr → String) (spans : List Span) : String :=
  String.join (spans.map (text name))

def values (spans : List Span) : List Expr := spans.filterMap value?

/-- The values outside aggregates. -/
def bare (spans : List Span) : List Expr := spans.filterMap bare?

def separated (sep : String) (parts : List (List Span)) : List Span :=
  [.words sep].intercalate parts

variable {name : Expr → String}

theorem written_append (xs ys : List Span) :
    written name (xs ++ ys) = written name xs ++ written name ys := by
  rw [written, List.map_append, String.join_append]
  rfl

theorem written_cons (x : Span) (xs : List Span) :
    written name (x :: xs) = x.text name ++ written name xs := by
  rw [written, List.map_cons, String.join_cons]
  rfl

@[simp] theorem written_nil : written name [] = "" := rfl

@[simp] theorem written_words (s : String) : written name [.words s] = s := by
  simp [written, text]

@[simp] theorem written_value (e : Expr) (folded : Bool) :
    written name [.value e folded] = name e := by
  simp [written, text]

theorem join_eq_intercalate (parts : List String) : String.join parts = "".intercalate parts := by
  induction parts with
  | nil => rfl
  | cons part parts ih =>
    cases parts with
    | nil => simp
    | cons next parts =>
      rw [String.join_cons, ih, String.intercalate_cons_cons, String.append_empty]

theorem written_flatMap (f : α → List Span) (xs : List α) :
    written name (xs.flatMap f) = String.join (xs.map fun x => written name (f x)) := by
  induction xs with
  | nil => rfl
  | cons x xs ih => rw [List.flatMap_cons, written_append, ih, List.map_cons, String.join_cons]

theorem written_separated (sep : String) (parts : List (List Span)) :
    written name (separated sep parts) = sep.intercalate (parts.map (written name)) := by
  induction parts with
  | nil => rfl
  | cons part parts ih =>
    cases parts with
    | nil => simp [separated]
    | cons next parts =>
      rw [separated] at ih ⊢
      rw [List.intercalate_cons_cons, written_append, written_append, ih, written_words]
      simp only [List.map_cons, String.intercalate_cons_cons]

theorem values_append (xs ys : List Span) : values (xs ++ ys) = values xs ++ values ys :=
  List.filterMap_append

theorem filterMap_separated {pick : Span → Option Expr} (hp : ∀ s, pick (.words s) = none)
    (sep : String) (parts : List (List Span)) :
    (separated sep parts).filterMap pick = parts.flatMap (List.filterMap pick) := by
  induction parts with
  | nil => rfl
  | cons part parts ih =>
    cases parts with
    | nil => simp [separated]
    | cons next parts =>
      rw [separated] at ih ⊢
      rw [List.intercalate_cons_cons, List.filterMap_append, List.filterMap_append, ih,
        List.filterMap_cons_none (hp sep), List.filterMap_nil, List.append_nil]
      rfl

theorem values_separated (sep : String) (parts : List (List Span)) :
    values (separated sep parts) = parts.flatMap values :=
  filterMap_separated (fun _ => rfl) sep parts

end Span

open Sql.Span

namespace Output

/-- A value inside the call of an aggregate. -/
def call (before : String) (e : Expr) (after : String) : List Span :=
  [.words before, .value e true, .words after]

def spans : Output → List Span
  | .value e => [.value e false]
  | .rows => [.words "COUNT(*)"]
  | .countDistinct e => call "COUNT(DISTINCT " e ")"
  | .sum e type => call "COALESCE(SUM(" e ("), 0)" ++ castSuffix type)
  | .avg e type => call "AVG(" e (")" ++ castSuffix type)
  | .min e => call "MIN(" e ")"
  | .max e => call "MAX(" e ")"

theorem written_call (name : Expr → String) (before : String) (e : Expr) (after : String) :
    written name (call before e after) = before ++ name e ++ after := by
  simp [call, written, Span.text, String.append_assoc]

theorem written_spans (name : Expr → String) (o : Output) : written name o.spans = o.text name := by
  cases o with
  | value e => exact written_value e false
  | rows => exact written_words _
  | countDistinct e => exact written_call name _ e _
  | sum e type => exact (written_call name _ e _).trans String.append_assoc.symm
  | avg e type => exact (written_call name _ e _).trans String.append_assoc.symm
  | min e => exact written_call name _ e _
  | max e => exact written_call name _ e _

theorem values_spans (o : Output) : values o.spans = o.exprs := by
  cases o <;> rfl

theorem mem_bare_spans {o : Output} : e ∈ bare o.spans ↔ o = .value e := by
  cases o <;> simp [spans, call, bare, bare?, eq_comm]

end Output

namespace Token

def spans : Token → List Span
  | .operand o => o.spans
  | t => [.words (t.text fun _ => "")]

theorem written_spans (name : Expr → String) (t : Token) :
    written name t.spans = t.text (Output.text name) := by
  cases t with
  | operand o => exact o.written_spans name
  | _ => exact written_words _

theorem exists_of_mem_spans {pick : Span → Option Expr} (hp : ∀ s, pick (.words s) = none)
    {tokens : List Token} (h : e ∈ (tokens.flatMap spans).filterMap pick) :
    ∃ o, .operand o ∈ tokens ∧ e ∈ o.spans.filterMap pick := by
  obtain ⟨span, hs, he⟩ := List.mem_filterMap.1 h
  obtain ⟨t, ht, hm⟩ := List.mem_flatMap.1 hs
  cases t with
  | operand o => exact ⟨o, ht, List.mem_filterMap.2 ⟨span, hm, he⟩⟩
  | _ =>
    rw [List.mem_singleton.1 hm, hp] at he
    cases he

theorem mem_of_operand {pick : Span → Option Expr} {tokens : List Token}
    (ho : .operand o ∈ tokens) (h : e ∈ o.spans.filterMap pick) :
    e ∈ (tokens.flatMap spans).filterMap pick := by
  obtain ⟨span, hs, he⟩ := List.mem_filterMap.1 h
  exact List.mem_filterMap.2 ⟨span, List.mem_flatMap.2 ⟨_, ho, hs⟩, he⟩

end Token

namespace Condition

open Token

def spans (bound : Nat) (c : Condition) : List Span := (c.tokens bound).flatMap Token.spans

theorem written_tokens (name : Expr → String) (tokens : List Token) :
    Span.written name (tokens.flatMap Token.spans) =
      Condition.written (Output.text name) tokens := by
  rw [written_flatMap, Condition.written]
  congr 2
  funext t
  exact t.written_spans name

theorem written_spans (name : Expr → String) (c : Condition) (bound : Nat) :
    Span.written name (c.spans bound) = c.text (Output.text name) bound := by
  rw [spans, written_tokens, text_eq_written]

theorem operand_mem_enclosed {inner outer : Nat} {tokens : List Token} :
    .operand o ∈ enclosedTokens inner outer tokens ↔ .operand o ∈ tokens := by
  rw [enclosedTokens]
  split <;> simp

theorem operand_mem_intercalate {sep : Token} (hsep : ∀ o, sep ≠ .operand o)
    {parts : List (List Token)} :
    .operand o ∈ [sep].intercalate parts ↔ ∃ part ∈ parts, .operand o ∈ part := by
  induction parts with
  | nil => simp
  | cons part parts ih =>
    cases parts with
    | nil => simp
    | cons next parts =>
      rw [List.intercalate_cons_cons, List.mem_append, List.mem_append, ih]
      simp [(hsep o).symm]

mutual

/-- The operands in the text of a condition are its outputs. -/
theorem operand_mem_tokens : ∀ (c : Condition) (bound : Nat),
    .operand o ∈ c.tokens bound ↔ o ∈ c.outputs
  | .true, _ => by simp [tokens, outputs]
  | .compare _ _ _, _ => by simp [tokens, outputs]
  | .isIn _ _ values, bound => by
    have hlist : .operand o ∉ listTokens ((List.range values.length).map (bound + · + 1)) := by
      rw [listTokens, operand_mem_intercalate (fun _ => Token.noConfusion)]
      simp
    simp [tokens, outputs, hlist]
  | .isLike _ _ _, _ => by simp [tokens, outputs]
  | .isNull _ _, _ => by simp [tokens, outputs]
  | .absentIn _ _, _ => by simp [tokens, outputs, or_comm]
  | .and operands, bound => by
    rw [tokens, outputs, operand_mem_intercalate (fun _ => Token.noConfusion)]
    exact operand_mem_each operands _ bound
  | .or operands, bound => by
    rw [tokens, outputs, operand_mem_intercalate (fun _ => Token.noConfusion)]
    exact operand_mem_each operands _ bound

theorem operand_mem_each : ∀ (cs : List Condition) (outer bound : Nat),
    (∃ part ∈ tokensEach outer bound cs, .operand o ∈ part) ↔ o ∈ outputsAll cs
  | [], _, _ => by simp [tokensEach, outputsAll]
  | c :: cs, outer, bound => by
    rw [tokensEach, outputsAll, List.mem_append, List.exists_mem_cons_iff, operand_mem_enclosed,
      operand_mem_tokens c bound, operand_mem_each cs]

end

theorem mem_values_spans {c : Condition} {n : Nat} :
    e ∈ Span.values (c.spans n) ↔ ∃ o ∈ c.outputs, e ∈ o.exprs := by
  constructor
  · intro h
    obtain ⟨o, ho, he⟩ := exists_of_mem_spans (fun _ => rfl) h
    exact ⟨o, (operand_mem_tokens c n).1 ho, o.values_spans ▸ he⟩
  · rintro ⟨o, ho, he⟩
    rw [← o.values_spans] at he
    exact mem_of_operand ((operand_mem_tokens c n).2 ho) he

theorem mem_bare_spans {c : Condition} {n : Nat} :
    e ∈ Span.bare (c.spans n) ↔ .value e ∈ c.outputs := by
  constructor
  · intro h
    obtain ⟨o, ho, he⟩ := exists_of_mem_spans (fun _ => rfl) h
    exact Output.mem_bare_spans.1 he ▸ (operand_mem_tokens c n).1 ho
  · intro h
    exact mem_of_operand ((operand_mem_tokens c n).2 h) (Output.mem_bare_spans.2 rfl)

/-- The text depends only on how the outputs of the condition are written. -/
theorem written_congr {write write' : Output → String} {c : Condition}
    (h : ∀ o ∈ c.outputs, write o = write' o) (bound : Nat) :
    Condition.written write (c.tokens bound) = Condition.written write' (c.tokens bound) := by
  rw [Condition.written, Condition.written]
  congr 1
  apply List.map_congr_left
  intro t ht
  cases t with
  | operand o => exact h o ((operand_mem_tokens c bound).1 ht)
  | _ => rfl

end Condition

def Join.onSpans (j : Join) : List Span :=
  [.value (.column j.tableAlias j.foreign) false, .words " = "] ++
    if j.isArray then [.words "ANY(", .value j.localExpr false, .words ")"]
    else [.value j.localExpr false]

def Join.spans (j : Join) : List Span :=
  .words ("LEFT JOIN " ++ j.table ++ " AS " ++ j.tableAlias ++ " ON ") :: j.onSpans

theorem Join.written_spans (j : Join) : written Expr.text j.spans = j.text := by
  have htext : j.text = "LEFT JOIN " ++ j.table ++ " AS " ++ j.tableAlias ++ " ON " ++
      (Expr.column j.tableAlias j.foreign).text ++ " = " ++
      if j.isArray then "ANY(" ++ j.localExpr.text ++ ")" else j.localExpr.text := rfl
  rw [htext, spans, onSpans]
  cases j.isArray <;> simp [written, Span.text, String.append_assoc]

def Item.spans (i : Item) : List Span :=
  i.output.spans ++ [.words (i.name.elim "" fun name => " AS " ++ identifier name)]

namespace Statement

variable (s : Statement)

def selectionSpans : List Span :=
  match s.selection with
  | .items list => separated ", " (list.map Item.spans)
  | .constant => [.words "1"]

def whereSpans : List Span := s.filterTokens.flatMap Token.spans

/-- The joined tables and the condition on their rows. -/
def tableSpans : List Span :=
  .words (s.table ++ " AS " ++ s.rootAlias) :: s.joins.flatMap (fun j => .words " " :: j.spans) ++
    (if s.filterText = "" then [] else [.words " WHERE "]) ++ s.whereSpans

/-- What a subquery exposes, each value under its name. -/
def exposed : List (String × Expr) :=
  (slotName 0, s.identity) :: s.slots.mapIdx fun i e => (slotName (i + 1), e)

def subquerySpans : List Span :=
  [.words "(SELECT DISTINCT ON (", .value s.identity false, .words ") "] ++
    separated ", " (s.exposed.map fun x => [.value x.2 false, .words (" AS " ++ x.1)]) ++
    .words " FROM " :: s.tableSpans ++
    [.words " ORDER BY ", .value s.identity false, .words ") AS d"]

def sourceSpans : List Span := if s.distinct then s.subquerySpans else s.tableSpans

def groupSpans : List Span :=
  if s.groupBy.isEmpty then []
  else .words " GROUP BY " :: separated ", " (s.groupBy.map fun e => [.value e false])

def havingSpans : List Span :=
  s.having.elim [] fun c => .words " HAVING " :: c.spans s.filterParams.length

def orderSpans : List Span :=
  s.orderBy.elim [] fun keys => .words " ORDER BY " :: separated ", " (keys.map fun o =>
    o.1.spans ++ [.words (if o.2 then " DESC NULLS LAST" else " ASC NULLS FIRST")])

def pageSpans : List Span :=
  [.words (s.limit.elim "" fun n => " LIMIT " ++ Text.ofInt n),
    .words (s.offset.elim "" fun n => " OFFSET " ++ Text.ofInt n)]

/-- The clauses after the joined tables. -/
def tailSpans : List Span := s.groupSpans ++ s.havingSpans ++ s.orderSpans ++ s.pageSpans

variable {s}

theorem written_selectionSpans : written s.scope s.selectionSpans = s.selectionText := by
  rw [selectionSpans, selectionText]
  cases s.selection with
  | items list =>
    simp only
    rw [written_separated, List.map_map]
    apply congrArg
    apply List.map_congr_left
    intro i _
    rw [Function.comp_apply, Item.spans, written_append, Output.written_spans, written_words,
      itemText]
    cases i.name <;> rfl
  | constant => exact written_words _

theorem written_tableSpans
    (h : written Expr.text s.whereSpans = s.filterText) :
    written Expr.text s.tableSpans = s.tables := by
  have hjoins : written Expr.text (s.joins.flatMap fun j => .words " " :: j.spans) =
      "".intercalate (s.joins.map fun j => " " ++ j.text) := by
    rw [written_flatMap, join_eq_intercalate]
    congr 2
    funext j
    rw [written_cons, j.written_spans]
    rfl
  have hwhere : written Expr.text (if s.filterText = "" then [] else [.words " WHERE "]) ++
      s.filterText = if s.filterText = "" then "" else " WHERE " ++ s.filterText := by
    split
    · next he => rw [he, written_nil, String.append_empty]
    · rw [written_words]
  rw [tableSpans, written_append, written_append, written_cons, hjoins, h, String.append_assoc,
    hwhere]
  rfl

theorem written_exposed : written Expr.text
    (separated ", " (s.exposed.map fun x => [.value x.2 false, .words (" AS " ++ x.1)])) =
      ", ".intercalate ((s.identity.text ++ " AS " ++ slotName 0) ::
        s.slots.mapIdx fun i e => e.text ++ " AS " ++ slotName (i + 1)) := by
  rw [written_separated, List.map_map, exposed, List.map_cons, List.mapIdx_eq_zipIdx_map,
    List.mapIdx_eq_zipIdx_map, List.map_map]
  simp only [Function.comp_def, written_cons, written_nil, Span.text, String.append_empty,
    String.append_assoc]

theorem written_subquerySpans (h : written Expr.text s.whereSpans = s.filterText) :
    written Expr.text s.subquerySpans = s.subquery := by
  have hhead : s.subqueryHead = "(SELECT DISTINCT ON (" ++ s.identity.text ++ ") " ++
      ", ".intercalate ((s.identity.text ++ " AS " ++ slotName 0) ::
        s.slots.mapIdx fun i e => e.text ++ " AS " ++ slotName (i + 1)) ++ " FROM " := rfl
  rw [subquery_eq, hhead, ← written_exposed, ← written_tableSpans h, subquerySpans]
  simp only [written_append, written_cons, written_nil, Span.text, String.append_empty,
    String.append_assoc]

theorem written_sourceSpans (h : written Expr.text s.whereSpans = s.filterText) :
    written Expr.text s.sourceSpans = s.source := by
  rw [sourceSpans, source]
  split
  · exact written_subquerySpans h
  · exact written_tableSpans h

theorem written_groupSpans : written s.scope s.groupSpans =
    if s.groupBy.isEmpty then "" else " GROUP BY " ++ ", ".intercalate (s.groupBy.map s.scope) := by
  rw [groupSpans]
  split
  · rfl
  · rw [written_cons, written_separated, List.map_map]
    apply congrArg
    apply congrArg
    apply List.map_congr_left
    intro e _
    exact written_value e false

theorem written_tailSpans : written s.scope s.tailSpans = s.tail := by
  rw [tailSpans, written_append, written_append, written_append, written_groupSpans, havingSpans,
    orderSpans, pageSpans, written_cons, written_words, ← String.append_assoc, tail]
  congr 1
  · congr 1
    · congr 1
      · congr 1
        cases s.having with
        | none => rfl
        | some c =>
          rw [Option.elim_some, written_cons, Condition.written_spans]
          rfl
      · cases s.orderBy with
        | none => rfl
        | some keys =>
          rw [Option.elim_some, written_cons, written_separated, List.map_map]
          apply congrArg
          apply congrArg
          apply List.map_congr_left
          intro o _
          rw [Function.comp_apply, written_append, Output.written_spans, written_words, orderText]
    · cases s.limit <;> rfl
  · cases s.offset <;> rfl

/-- The text of a statement is that of its clauses: within the joined tables each value has its own
text, and outside them the one that the statement gives it. -/
theorem text_eq_spans (h : written Expr.text s.whereSpans = s.filterText) :
    s.text = s.countHead ++ "SELECT " ++ written s.scope s.selectionSpans ++ " FROM " ++
      written Expr.text s.sourceSpans ++ written s.scope s.tailSpans ++ s.countFoot := by
  rw [written_selectionSpans, written_sourceSpans h, written_tailSpans, text, select, countHead,
    countFoot]
  cases s.countAs with
  | none => simp only [Option.elim_none, String.empty_append, String.append_empty,
      String.append_assoc]
  | some name => simp only [Option.elim_some, String.append_assoc]

section

variable {pick : Span → Option Expr} (hp : ∀ s, pick (.words s) = none)
include hp

theorem mem_spans_words {o : Output} {text : String}
    (h : e ∈ (o.spans ++ [Span.words text]).filterMap pick) : e ∈ o.spans.filterMap pick := by
  rwa [List.filterMap_append, List.filterMap_cons_none (hp text), List.filterMap_nil,
    List.append_nil] at h

theorem mem_selectionSpans (h : e ∈ s.selectionSpans.filterMap pick) :
    ∃ o ∈ s.selected, e ∈ o.spans.filterMap pick := by
  rw [selectionSpans] at h
  rw [selected]
  cases hs : s.selection with
  | constant =>
    rw [hs] at h
    simp [hp] at h
  | items list =>
    rw [hs] at h
    simp only at h ⊢
    rw [filterMap_separated hp] at h
    obtain ⟨part, hpart, he⟩ := List.mem_flatMap.1 h
    obtain ⟨i, hi, rfl⟩ := List.mem_map.1 hpart
    exact ⟨i.output, List.mem_map_of_mem hi, mem_spans_words hp he⟩

theorem mem_havingSpans (h : e ∈ s.havingSpans.filterMap pick) :
    ∃ o ∈ s.having.elim [] Condition.outputs, e ∈ o.spans.filterMap pick := by
  rw [havingSpans] at h
  cases hh : s.having with
  | none =>
    rw [hh] at h
    cases h
  | some c =>
    rw [hh, Option.elim_some, List.filterMap_cons_none (hp _)] at h
    obtain ⟨o, ho, he⟩ := Token.exists_of_mem_spans hp h
    exact ⟨o, (Condition.operand_mem_tokens c _).1 ho, he⟩

theorem mem_orderSpans (h : e ∈ s.orderSpans.filterMap pick) :
    ∃ o ∈ (s.orderBy.getD []).map (·.1), e ∈ o.spans.filterMap pick := by
  rw [orderSpans] at h
  cases ho : s.orderBy with
  | none =>
    rw [ho] at h
    cases h
  | some keys =>
    rw [ho, Option.elim_some, List.filterMap_cons_none (hp _), filterMap_separated hp] at h
    obtain ⟨part, hpart, he⟩ := List.mem_flatMap.1 h
    obtain ⟨o, hk, rfl⟩ := List.mem_map.1 hpart
    exact ⟨o.1, List.mem_map_of_mem hk, mem_spans_words hp he⟩

end

theorem mem_groupSpans (h : e ∈ values s.groupSpans) : e ∈ s.groupBy := by
  rw [groupSpans] at h
  split at h
  · cases h
  · rw [values, List.filterMap_cons_none rfl, filterMap_separated fun _ => rfl] at h
    obtain ⟨part, hpart, he⟩ := List.mem_flatMap.1 h
    obtain ⟨e', hg, rfl⟩ := List.mem_map.1 hpart
    exact List.mem_singleton.1 he ▸ hg

end Statement

end NeutralQuery.Sql
