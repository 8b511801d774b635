import NeutralQuery.Proofs.Plan.Closure

namespace NeutralQuery

/-- Every having stage comes after a grouping. -/
def Plan.GroupsFirst (plan : Plan) : Prop :=
  ∀ before f after, plan.stages = before ++ .having f :: after →
    ∃ keys accumulators, .group keys accumulators ∈ before

def Filter.IsHollow (f : Filter) : Prop := f.leaves = [] ∧ f.isAll = false

def QuerySpec.Ungrouped (spec : QuerySpec) : Prop :=
  spec.groupBy = [] ∧ ∀ item ∈ spec.select, Aggregate.isAggregate item.source = false

namespace Compile

variable {q : Parsed} {asked : QuerySpec}

theorem Parsed.Reads.havingRefs_eq_nil (h : q.Reads asked) :
    q.havingRefs = [] ↔ q.having.leaves = [] := by
  rw [← List.map_eq_nil_iff (f := Reference.raw), h.raws, List.map_eq_nil_iff]

theorem Parsed.Reads.selects_aggregate (h : q.Reads asked) :
    q.selection.any (·.reference.aggregate.isSome) = false ↔
      ∀ item ∈ asked.select, Aggregate.isAggregate item.source = false := by
  have hrel := (readSelection_eq_ok h.selection).1
  rw [List.any_eq_false]
  constructor
  · intro hs item hi
    obtain ⟨s, hm, _, hp⟩ := exists_right_of_forall₂ hrel hi
    rw [← (parse_isAggregate hp).2]
    exact Bool.eq_false_iff.2 (hs s hm)
  · intro hi s hs
    obtain ⟨item, hm, _, hp⟩ := exists_left_of_forall₂ hrel hs
    rw [(parse_isAggregate hp).2, hi item hm]
    exact Bool.false_ne_true

theorem Parsed.Reads.grouped_eq_false (h : q.Reads asked) (hs : q.spec = asked) :
    q.grouped = false ↔ asked.Ungrouped ∧ q.having.leaves = [] := by
  rw [Parsed.grouped, Bool.or_eq_false_iff, Bool.or_eq_false_iff, hs, h.selects_aggregate,
    Bool.not_eq_false', List.isEmpty_iff, ← h.havingRefs_eq_nil]
  constructor
  · rintro ⟨hu, hr⟩
    refine ⟨hu, by_contra fun hn => ?_⟩
    have hg := h.grouped hn
    rw [Parsed.grouped, hs, hu.1, h.selects_aggregate.2 hu.2, hr] at hg
    cases hg
  · rintro ⟨hu, hr⟩
    rw [hr]
    exact ⟨hu, rfl⟩

end Compile

namespace Compiler.Compiles

open Compile

variable {q : Parsed} {raws : List String} {resolution : Resolution} {g : Grouping}

theorem stages_around (h : Compiles c root spec countOnly plan q raws resolution g) :
    ∃ before having after,
      filterStage c.capabilities plan.fields .having q.having = .ok having ∧
      plan.stages =
        before ++ (if q.grouped then [.group g.keys g.accumulators] else []) ++ having ++ after ∧
      ∀ f, .having f ∉ before := by
  obtain ⟨shared, ending, hshared, _, he⟩ := stages_eq_ok h.stages
  obtain ⟨keep, having, hk, hh, rfl⟩ := sharedStages_eq_ok hshared
  refine ⟨_, having, ending, hh, he, fun f hf => ?_⟩
  simp only [List.mem_append] at hf
  rcases hf with (hf | hf) | hf
  · exact isJoining_of_mem hf
  · rcases filterStage_eq_ok hk with ⟨_, rfl⟩ | ⟨_, t, _, rfl⟩
    · cases hf
    · cases List.mem_singleton.1 hf
  · split at hf
    · cases List.mem_singleton.1 hf
    · cases hf

theorem groupsFirst_of_grouped (h : Compiles c root spec countOnly plan q raws resolution g)
    (hg : q.grouped = true) : plan.GroupsFirst := by
  obtain ⟨before, having, after, _, he, hbefore⟩ := h.stages_around
  rw [if_pos hg, List.append_assoc] at he
  intro front f back hs
  refine ⟨g.keys, g.accumulators, ?_⟩
  rw [he] at hs
  rcases List.append_eq_append_iff.1 hs with ⟨rest, rfl, _⟩ | ⟨rest, hfront, hback⟩
  · exact List.mem_append_left _ (List.mem_append_right _ List.mem_cons_self)
  · cases rest with
    | nil =>
      rw [List.append_nil] at hfront
      rw [← hfront]
      exact List.mem_append_right _ List.mem_cons_self
    | cons stage rest =>
      cases hback
      have hm : .having f ∈ before ++ [.group g.keys g.accumulators] := by
        rw [hfront]
        exact List.mem_append_right _ List.mem_cons_self
      rcases List.mem_append.1 hm with hm | hm
      · exact absurd hm (hbefore f)
      · cases List.mem_singleton.1 hm

theorem groupsFirst_iff (h : Compiles c root spec countOnly plan q raws resolution g) :
    plan.GroupsFirst ↔ q.grouped = true ∨ q.having.isAll = true := by
  constructor
  · intro hfirst
    obtain ⟨before, having, after, hh, he, _⟩ := h.stages_around
    rcases filterStage_eq_ok hh with ⟨hall, _⟩ | ⟨_, t, _, rfl⟩
    · exact .inr hall
    · rw [List.append_assoc, List.singleton_append] at he
      obtain ⟨keys, accumulators, hm⟩ := hfirst _ t after he
      have hmem : .group keys accumulators ∈ plan.stages := he ▸ List.mem_append_left _ hm
      exact .inl (h.group_mem_iff.1 hmem).1
  · rintro (hg | hall)
    · exact h.groupsFirst_of_grouped hg
    · intro before f after he
      have hmem : .having f ∈ plan.stages := he ▸ List.mem_append_right _ List.mem_cons_self
      cases h.emits hmem with
      | having hn => rw [hall] at hn; cases hn

end Compiler.Compiles

open Compile in
/-- A having stage comes after a grouping, unless nothing but the having clause could ask for one
and the clause is hollow. -/
theorem Compiler.having_after_group {c : Compiler} {plan : Plan}
    (h : c.run root spec countOnly = .ok plan) :
    plan.GroupsFirst ↔
      ¬(spec.Ungrouped ∧ ∃ f, Filter.build spec.having = .ok f ∧ f.IsHollow) := by
  obtain ⟨q, raws, resolution, g, hc⟩ := run_eq_ok h
  have hreads := read_eq_ok hc.read
  have hgrouped := hreads.grouped_eq_false (read_spec hc.read)
  rw [hc.groupsFirst_iff, ← not_iff_not, not_or, not_not, Bool.not_eq_true, Bool.not_eq_true,
    hgrouped]
  constructor
  · rintro ⟨⟨hu, hl⟩, ha⟩
    exact ⟨hu, q.having, hreads.having, hl, ha⟩
  · rintro ⟨hu, f, hf, hl, ha⟩
    cases hreads.having.symm.trans hf
    exact ⟨⟨hu, hl⟩, ha⟩

namespace Sample

/-- Two empty groups, in a query that groups nothing. -/
def hollow : QuerySpec where
  having := [⟨"", "PARENTHES", [.group []]⟩, ⟨"", "PARENTHES", [.group []]⟩]

def hollowPlan : Plan where
  root := item
  stages := [.having (.and [.all, .all])]
  fields := []
  countOnly := false

theorem compile_hollow : items.run "item" hollow false = .ok hollowPlan := by
  let q : Compile.Parsed := ⟨hollow, .all, .and [.all, .all], [], []⟩
  have hq : Compile.read hollow = .ok q := rfl
  exact Compiler.run_of_steps rfl hq rfl rfl rfl rfl

end Sample

theorem Compiler.having_after_group_sums :
    Sample.items.run "item" Sample.sums false = .ok Sample.sumsPlan ∧
      .having Sample.sumsFilter ∈ Sample.sumsPlan.stages ∧ Sample.sumsPlan.GroupsFirst := by
  refine ⟨Sample.compile_sums, List.mem_cons_of_mem _ List.mem_cons_self, ?_⟩
  rw [Compiler.having_after_group Sample.compile_sums]
  rintro ⟨_, f, hf, hl, _⟩
  cases hf
  cases hl

theorem Compiler.having_without_group :
    Sample.items.run "item" Sample.hollow false = .ok Sample.hollowPlan ∧
      Sample.hollowPlan.stages = [] ++ .having (.and [.all, .all]) :: [] ∧
      ¬Sample.hollowPlan.GroupsFirst := by
  refine ⟨Sample.compile_hollow, rfl, fun h => ?_⟩
  obtain ⟨keys, accumulators, hm⟩ := h [] (.and [.all, .all]) [] rfl
  cases hm

end NeutralQuery
