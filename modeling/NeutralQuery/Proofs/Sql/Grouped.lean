import NeutralQuery.Proofs.Memory.Groups
import NeutralQuery.Proofs.Plan.Masking
import NeutralQuery.Proofs.Sql.Scoping

namespace NeutralQuery

/-- A key is a field that some path leads to. -/
def GroupKey.Resolves (catalog : Catalog) (root : Entity) (k : GroupKey) : Prop :=
  ∃ raw ref, FieldRef.Resolves catalog root raw ref ∧ k = ⟨ref.location, ref.type⟩

theorem FieldRef.Resolves.mem_keys {written : String} {ref : FieldRef} {keys : List GroupKey}
    (h : ref.Resolves catalog root written) (hk : ∀ k ∈ keys, k.Resolves catalog root)
    (hl : isKey keys ref.location = true) : ⟨ref.location, ref.type⟩ ∈ keys := by
  obtain ⟨k, hm, hl⟩ := List.any_eq_true.1 hl
  obtain ⟨_, ref', hr', rfl⟩ := hk k hm
  have hlocation : ref'.location = ref.location := beq_iff_eq.1 hl
  rwa [← hlocation, ← hr'.type_eq h hlocation]

namespace Compile

theorem foldl_addKey_resolves (hf : fields.Resolved catalog root) (hp : Found fields paths)
    (hk : ∀ k ∈ keys, GroupKey.Resolves catalog root k) :
    ∀ k ∈ paths.foldl (addKey fields) keys, GroupKey.Resolves catalog root k := by
  induction paths generalizing keys with
  | nil => exact hk
  | cons path rest ih =>
    have hrest : Found fields rest := fun p hm => hp p (List.mem_cons_of_mem path hm)
    apply ih hrest
    obtain ⟨ref, hfind⟩ := Option.isSome_iff_exists.1 (hp path List.mem_cons_self)
    rw [addKey, FieldTable.get_of_find? hfind]
    split
    · exact hk
    · refine List.forall_mem_append.2 ⟨hk, List.forall_mem_singleton.2 ?_⟩
      exact ⟨path, ref, hf path ref hfind, rfl⟩

end Compile

/-- A clause that some stage asks for is there. -/
theorem Sql.exists_last (pick : Stage → Option α) {stages : List Stage} (hs : stage ∈ stages)
    (hp : pick stage = some a) : ∃ b, (stages.filterMap pick).getLast? = some b := by
  have hm : a ∈ stages.filterMap pick := List.mem_filterMap.2 ⟨stage, hs, hp⟩
  exact ⟨_, List.getLast?_eq_some_getLast (List.ne_nil_of_mem hm)⟩

namespace Compiler.Compiles

open Compile

variable {q : Parsed} {raws : List String} {resolution : Resolution} {g : Grouping}

theorem keys_resolve (h : Compiles c root spec countOnly plan q raws resolution g) :
    ∀ k ∈ g.keys, k.Resolves c.catalog plan.root := by
  rcases grouping_eq_ok h.grouping with ⟨_, _, rfl⟩ | ⟨_, selected, hs, ha⟩
  · exact fun _ hk => nomatch hk
  · obtain ⟨hsound, hselected⟩ := addSelected_sound q.selection (.ofKeys _) hs
    obtain ⟨_, hhaving, _⟩ := addHaving_sound q.havingRefs hsound ha
    have hfound := (paths_eq_ok h.paths).found fun raw hm =>
      Option.isSome_iff_exists.2 (h.found hm)
    rw [hhaving.keys, hselected.keys]
    exact foldl_addKey_resolves h.resolved hfound.1 fun _ hk => nomatch hk

theorem group_clause (h : Compiles c root spec countOnly plan q raws resolution g)
    (hg : q.grouped = true) : (Sql.Clauses.ofPlan plan).group = some g.keys := by
  obtain ⟨keys, hlast⟩ := Sql.exists_last Stage.grouped? (h.group_mem_iff.2 ⟨hg, rfl, rfl⟩) rfl
  rw [← Sql.group_ofPlan] at hlast
  obtain ⟨accumulators, hm⟩ := Sql.group_mem hlast
  rw [hlast, (h.group_mem_iff.1 hm).2.1]

theorem having_clause (h : Compiles c root spec countOnly plan q raws resolution g)
    (ht : .having t ∈ plan.stages) : (Sql.Clauses.ofPlan plan).having = some t := by
  obtain ⟨t', hlast⟩ := Sql.exists_last Stage.having? ht rfl
  rw [← Sql.having_ofPlan] at hlast
  cases h.emits ht with
  | having _ htyped =>
    cases h.emits (Sql.having_mem hlast) with
    | having _ htyped' =>
      cases htyped.symm.trans htyped'
      exact hlast

end Compiler.Compiles

namespace Sql

open Compile

/-- Whatever some spans name outside aggregates is, as it is written, what rows are grouped by. -/
def Statement.Covers (s : Statement) (spans : List Span) : Prop :=
  ∀ e ∈ Span.bare spans, s.scope e ∈ s.groupBy.map s.scope

namespace Statement.Of

variable {st : Statement} {f : Frame} {q : Parsed} {raws : List String} {resolution : Resolution}
  {g : Grouping}

theorem frame (hst : st.Of mapping plan f) : frameOf mapping plan = .ok f := by
  have hjoins := hst.joins
  rw [rootFrame] at hjoins
  rw [frameOf, hjoins]
  rfl

section

variable (hst : st.Of mapping plan f)
  (h : Compiler.Compiles c root spec countOnly plan q raws resolution g) (hg : q.grouped = true)
include hst h hg

theorem keys_eq : g.keys.mapM (fun k => f.expr k.path k.type) = .ok st.groupBy := by
  have hgroup := hst.groupBy
  rwa [groupExprs, h.group_clause hg] at hgroup

theorem mem_groupBy (hk : k ∈ g.keys) (he : f.expr k.path k.type = .ok e) : e ∈ st.groupBy := by
  obtain ⟨e', hm, he'⟩ := exists_mem_of_mapM (hst.keys_eq h hg) hk
  cases he.symm.trans he'
  exact hm

/-- What a grouped plan shows is an aggregate or a key. -/
theorem shown_mem (hs : plan.Shows path)
    (ho : outputAt f (Clauses.ofPlan plan) plan path = .ok (.value e)) : e ∈ st.groupBy := by
  rw [outputAt, h.group_clause hg, Option.isSome_some, if_pos rfl] at ho
  split at ho
  · cases (accumulatorOutput_eq_ok ho).1
  · next hnone =>
    have hkey : isKey g.keys path = true := by
      rcases h.shows_grouped hg hs with hk | ⟨acc, hm, rfl⟩
      · exact hk
      · rw [Plan.accumulator?, h.group?_eq_some.2 ⟨hg, rfl, rfl⟩] at hnone
        cases hnone.symm.trans (find?_of_nodup h.sound.nodup hm)
    obtain ⟨e', he, hvalue⟩ := map_eq_ok ho
    cases hvalue
    obtain ⟨k, hk⟩ := Option.isSome_iff_exists.1 (List.find?_isSome.2 (List.any_eq_true.1 hkey))
    have hpath : k.path = path := by simpa using List.find?_some hk
    rw [typeOf, h.group_clause hg, Option.getD_some, hk, ← hpath] at he
    exact hst.mem_groupBy h hg (List.mem_of_find?_eq_some hk) he

theorem selection_covered (hc : plan.countOnly = countOnly) : st.Covers st.selectionSpans := by
  intro e he
  obtain ⟨o, ho, hb⟩ := mem_selectionSpans (fun _ => rfl) he
  rw [Output.mem_bare_spans.1 hb] at ho
  apply List.mem_map_of_mem
  rcases hst.selected_cases ho with hv | ⟨e', hm, hv⟩ | ⟨hfind, hproject, _⟩ | ⟨path, hs, hout⟩
  · cases hv
  · cases hv
    exact hm
  · rw [hc] at hfind
    subst hfind
    obtain ⟨before, picks, names, pages, _, _, _, hstages⟩ := h.grouped_stages hg
    have hstage : .project names ∈ plan.stages := by simp [hstages]
    obtain ⟨_, hlast⟩ := exists_last Stage.projected? hstage rfl
    rw [project_ofPlan, hlast] at hproject
    cases hproject
  · exact hst.shown_mem h hg hs hout

theorem order_covered : st.Covers st.orderSpans := by
  intro e he
  obtain ⟨o, ho, hb⟩ := mem_orderSpans (fun _ => rfl) he
  rw [Output.mem_bare_spans.1 hb] at ho
  obtain ⟨path, hs, hout⟩ := hst.orderBy_cases ho
  exact List.mem_map_of_mem (hst.shown_mem h hg hs hout)

/-- The field of a predicate on groups is an aggregate or a key. -/
theorem field_mem (ht : .having t ∈ plan.stages) (hp : p ∈ t.leaves)
    (hf : plan.fields.find? p.field = some ref)
    (ho : fieldOutput f plan ref = .ok (.value e)) : e ∈ st.groupBy := by
  cases h.emits ht with
  | having _ htyped =>
    obtain ⟨ref', hf', _, hkey, hstands⟩ := h.having htyped hp
    cases hf.symm.trans hf'
    cases htag : Aggregate.isAggregate p.field with
    | true =>
      obtain ⟨a, _, hparse, _⟩ := hstands htag
      obtain ⟨_, _, acc, _, hfield, hs⟩ := h.having_field htyped hp hparse
      cases hf.symm.trans hfield
      have hagg : (aggregateField p.field a acc).isAggregate = true := rfl
      rw [fieldOutput, if_pos hagg, hs.found] at ho
      cases (accumulatorOutput_eq_ok ho).1
    | false =>
      rw [fieldOutput, h.found_plain hf htag, if_neg Bool.false_ne_true] at ho
      obtain ⟨e', he, hv⟩ := map_eq_ok ho
      cases hv
      cases h.sourced p.field ref hf with
      | aggregate ha =>
        rw [htag] at ha
        cases ha
      | path path lookups hparse hof =>
        have hresolves : ref.Resolves c.catalog plan.root p.field := ⟨path, lookups, hparse, hof⟩
        exact hst.mem_groupBy h hg (hresolves.mem_keys h.keys_resolve (hkey htag)) he

/-- A having clause is covered when the parents that it asks for are. -/
theorem having_covered :
    st.Covers st.havingSpans ↔ ∀ t, .having t ∈ plan.stages → ∀ p ∈ t.leaves, ∀ e,
      AsksParent f plan p e → st.scope e ∈ st.groupBy.map st.scope := by
  have hs := hst.having
  rw [havingOf] at hs
  cases hc : (Clauses.ofPlan plan).having with
  | none =>
    rw [hc] at hs
    constructor
    · intro _ t ht
      cases hc.symm.trans (h.having_clause ht)
    · intro _ e he
      rw [havingSpans, ← Except.ok.inj hs] at he
      cases he
  | some t =>
    rw [hc] at hs
    obtain ⟨d, hd, hhaving⟩ := map_eq_ok hs
    have ht := having_mem hc
    have hbare : ∀ e, e ∈ Span.bare st.havingSpans ↔ .value e ∈ d.outputs := by
      intro e
      rw [havingSpans, hhaving]
      exact Condition.mem_bare_spans
    constructor
    · intro hcovers t' ht' p hp e he
      cases hc.symm.trans (h.having_clause ht')
      obtain ⟨part, hpart⟩ := ofFilter_leaf hd hp
      obtain ⟨_, _, _, _, houtputs⟩ := condition_outputs hpart
      apply hcovers
      rw [hbare, ofFilter_outputs hd]
      exact ⟨p, hp, part, hpart, (houtputs _).2 (.inr ⟨e, he, rfl⟩)⟩
    · intro hparents e he
      rw [hbare, ofFilter_outputs hd] at he
      obtain ⟨p, hp, part, hpart, hm⟩ := he
      obtain ⟨ref, o, hf, ho, houtputs⟩ := condition_outputs hpart
      rcases (houtputs _).1 hm with rfl | ⟨e', he, hv⟩
      · exact List.mem_map_of_mem (hst.field_mem h hg ht hp hf ho)
      · cases hv
        exact hparents t ht p hp e he

end

end Statement.Of

/-- Outside aggregates a grouped statement selects and orders by nothing but what its rows are
grouped by. So does its having clause, as long as the parents that absence asks for are keys as
well. -/
theorem grouped_columns {c : Compiler} {plan : Plan} {query : Query}
    (hp : c.run root spec countOnly = .ok plan) (hr : render mapping plan = .ok query)
    (hg : plan.group? = some (keys, accumulators)) :
    ∃ st f, statement mapping plan = .ok st ∧ frameOf mapping plan = .ok f ∧
      query.sql = st.countHead ++ "SELECT " ++ Span.written st.scope st.selectionSpans ++
        " FROM " ++ Span.written Expr.text st.sourceSpans ++
        Span.written st.scope st.tailSpans ++ st.countFoot ∧
      keys.mapM (fun k => f.expr k.path k.type) = .ok st.groupBy ∧
      st.Covers st.selectionSpans ∧ st.Covers st.orderSpans ∧
      (st.Covers st.havingSpans ↔ ∀ t, .having t ∈ plan.stages → ∀ p ∈ t.leaves, ∀ e,
        AsksParent f plan p e → st.scope e ∈ st.groupBy.map st.scope) := by
  obtain ⟨st, hst, rfl⟩ := map_eq_ok hr
  obtain ⟨f, hof⟩ := statement_eq_ok hst
  obtain ⟨q, raws, resolution, g, h⟩ := Compiler.run_eq_ok hp
  obtain ⟨hgrouped, rfl, rfl⟩ := h.group?_eq_some.1 hg
  have hwhere := Statement.written_whereSpans fun d hd o ho => hof.filters_plain h hd ho
  exact ⟨st, f, hst, hof.frame, Statement.text_eq_spans hwhere, hof.keys_eq h hgrouped,
    hof.selection_covered h hgrouped (Compiler.run_countOnly hp), hof.order_covered h hgrouped,
    hof.having_covered h hgrouped⟩

end Sql

end NeutralQuery

namespace NeutralQuery.Sample

open Sql

def unnamed (keys : List String) : QuerySpec where
  groupBy := keys
  having := [⟨"team<name", "SPECIFIED", [.bool false]⟩]
  orderBy := [⟨"team.name", .descending⟩]

def lacksName : Predicate := ⟨"team<name", .specified, [.bool false]⟩

def optionalName : FieldRef := { nameField with raw := "team<name", leftJoin := true }

def teamIdField : FieldRef :=
  { raw := "team.id", location := "team.id", type := .int, parentLocation := "team",
    parentIsReference := true, references := ["team"] }

def unnamedPlan (keys : List GroupKey) (fields : FieldTable) : Plan where
  root := person
  stages := Compile.lookupStages teamLookup ++
    [.group keys [], .having (.predicate lacksName), .sort [⟨"team.name", .descending⟩],
      .project (keys.map fun k => (k.path, k.path))]
  fields
  countOnly := false

def byName : Plan := unnamedPlan [⟨"team.name", .string⟩]
  [("team.name", nameField), ("team<name", optionalName)]

def byNameAndTeam : Plan := unnamedPlan [⟨"team.name", .string⟩, ⟨"team.id", .int⟩]
  [("team.name", nameField), ("team.id", teamIdField), ("team<name", optionalName)]

theorem run_byName :
    (⟨catalog, .relational⟩ : Compiler).run "person" (unnamed ["team.name"]) false =
      .ok byName := by
  let q : Compile.Parsed := ⟨unnamed ["team.name"], .all, .predicate lacksName, [],
    [⟨"team<name", "team<name", none⟩]⟩
  let raws := ["team.name", "team<name", "team.name"]
  have hq : Compile.read (unnamed ["team.name"]) = .ok q := rfl
  have hp : q.paths = .ok raws := rfl
  have hr : Resolution.resolve catalog person raws = .ok ⟨[teamLookup], byName.fields⟩ := rfl
  have hg : q.grouping byName.fields =
      .ok (byName.fields, ⟨[⟨"team.name", .string⟩], [], []⟩) := rfl
  exact Compiler.run_of_steps rfl hq hp hr hg rfl

theorem run_byNameAndTeam :
    (⟨catalog, .relational⟩ : Compiler).run "person" (unnamed ["team.name", "team.id"]) false =
      .ok byNameAndTeam := by
  let q : Compile.Parsed := ⟨unnamed ["team.name", "team.id"], .all, .predicate lacksName, [],
    [⟨"team<name", "team<name", none⟩]⟩
  let raws := ["team.name", "team.id", "team<name", "team.name"]
  have hq : Compile.read (unnamed ["team.name", "team.id"]) = .ok q := rfl
  have hp : q.paths = .ok raws := rfl
  have hr : Resolution.resolve catalog person raws =
      .ok ⟨[teamLookup], byNameAndTeam.fields⟩ := rfl
  have hg : q.grouping byNameAndTeam.fields = .ok (byNameAndTeam.fields,
      ⟨[⟨"team.name", .string⟩, ⟨"team.id", .int⟩], [], []⟩) := rfl
  exact Compiler.run_of_steps rfl hq hp hr hg rfl

def joinedTeam : Expr := .column "t_1" "id"

def joinedName : Expr := .column "t_1" "name"

def unnamedStatement (keys : List (String × Expr)) : Statement where
  table := "people"
  rootAlias := "p_0"
  identity := .column "p_0" "id"
  joins := [⟨"teams", "t_1", "id", .column "p_0" "team", false⟩]
  filters := []
  distinct := false
  selection := .items (keys.map fun k => ⟨.value k.2, some k.1⟩)
  groupBy := keys.map (·.2)
  having := some (.absentIn (.value joinedName) (.value joinedTeam))
  orderBy := some [(.value joinedName, true)]
  limit := none
  offset := none
  countAs := none

def byNameStatement : Statement := unnamedStatement [("team.name", joinedName)]

def byNameAndTeamStatement : Statement :=
  unnamedStatement [("team.name", joinedName), ("team.id", joinedTeam)]

theorem statement_byName : statement tables byName = .ok byNameStatement := rfl

theorem statement_byNameAndTeam : statement tables byNameAndTeam = .ok byNameAndTeamStatement := rfl

theorem render_byNameAndTeam : render tables byNameAndTeam =
    .ok ⟨byNameAndTeamStatement.text, [], ["team.name", "team.id"], false⟩ := by
  rw [render, statement_byNameAndTeam]
  rfl

end NeutralQuery.Sample

namespace NeutralQuery.Sql

open Sample

theorem grouped_columns_byNameAndTeam :
    (⟨catalog, .relational⟩ : Compiler).run "person" (unnamed ["team.name", "team.id"]) false =
        .ok byNameAndTeam ∧
      render tables byNameAndTeam =
        .ok ⟨byNameAndTeamStatement.text, [], ["team.name", "team.id"], false⟩ ∧
      byNameAndTeam.group? = some ([⟨"team.name", .string⟩, ⟨"team.id", .int⟩], []) ∧
      byNameAndTeamStatement.text =
        "SELECT t_1.name AS \"team.name\", t_1.id AS \"team.id\" FROM people AS p_0 " ++
          "LEFT JOIN teams AS t_1 ON t_1.id = p_0.team GROUP BY t_1.name, t_1.id " ++
          "HAVING t_1.id IS NOT NULL AND t_1.name IS NULL ORDER BY t_1.name DESC NULLS LAST" ∧
      byNameAndTeamStatement.Covers byNameAndTeamStatement.selectionSpans ∧
      byNameAndTeamStatement.Covers byNameAndTeamStatement.orderSpans ∧
      byNameAndTeamStatement.Covers byNameAndTeamStatement.havingSpans := by
  obtain ⟨st, f, hst, hf, _, _, hselection, horder, hhaving⟩ :=
    grouped_columns run_byNameAndTeam render_byNameAndTeam rfl
  cases statement_byNameAndTeam.symm.trans hst
  refine ⟨run_byNameAndTeam, render_byNameAndTeam, rfl, by decide +kernel, hselection, horder,
    hhaving.2 fun t ht p hp e he => ?_⟩
  cases hf.symm.trans (rfl : frameOf tables byNameAndTeam = .ok frame)
  have hleaf : t ∈ byNameAndTeam.stages.filterMap Stage.having? :=
    List.mem_filterMap.2 ⟨_, ht, rfl⟩
  cases List.mem_singleton.1 hleaf
  cases List.mem_singleton.1 hp
  obtain ⟨ref, hfind, _, _, hparent⟩ := he.parent
  have hfound : byNameAndTeam.fields.find? "team<name" = some optionalName := rfl
  cases hfound.symm.trans hfind
  have hteam : frame.expr "team" .object = .ok joinedTeam := rfl
  cases hteam.symm.trans hparent
  exact List.mem_map_of_mem (List.mem_cons_of_mem _ List.mem_cons_self)

/-- Grouped by the names of teams alone, rows are asked for the identity of the team, which is no
key. -/
theorem having_beyond_keys :
    (⟨catalog, .relational⟩ : Compiler).run "person" (unnamed ["team.name"]) false = .ok byName ∧
      statement tables byName = .ok byNameStatement ∧
      byName.group? = some ([⟨"team.name", .string⟩], []) ∧
      byNameStatement.text =
        "SELECT t_1.name AS \"team.name\" FROM people AS p_0 " ++
          "LEFT JOIN teams AS t_1 ON t_1.id = p_0.team GROUP BY t_1.name " ++
          "HAVING t_1.id IS NOT NULL AND t_1.name IS NULL ORDER BY t_1.name DESC NULLS LAST" ∧
      ¬byNameStatement.Covers byNameStatement.havingSpans := by
  refine ⟨run_byName, statement_byName, rfl, by decide +kernel, fun hcovers => ?_⟩
  have hbare : joinedTeam ∈ Span.bare byNameStatement.havingSpans := List.mem_cons_self
  have hkeys : byNameStatement.scope joinedTeam ∈ ["t_1.name"] := hcovers joinedTeam hbare
  revert hkeys
  decide +kernel

end NeutralQuery.Sql
