import NeutralQuery.Proofs.Filter.Masking
import NeutralQuery.Proofs.Plan.Literals

namespace NeutralQuery

namespace QuerySpec

def masked (spec : QuerySpec) : QuerySpec :=
  { spec with criteria := Criteria.masked spec.criteria, having := Criteria.masked spec.having }

/-- The literals of the criteria on rows, then those of the criteria on groups. -/
def literals (spec : QuerySpec) : List Value :=
  Criteria.literals spec.criteria ++ Criteria.literals spec.having

end QuerySpec

def Stage.masked : Stage → Stage
  | .keep f => .keep f.masked
  | .having f => .having f.masked
  | stage => stage

def Plan.masked (plan : Plan) : Plan := { plan with stages := plan.stages.map Stage.masked }

theorem map_eq_of_forall₂ {f : α → γ} {g : β → γ} {xs : List α} {ys : List β}
    (h : List.Forall₂ (fun x y => f x = g y) xs ys) : xs.map f = ys.map g := by
  induction h with
  | nil => rfl
  | cons hd _ ih => rw [List.map_cons, List.map_cons, hd, ih]

namespace Predicate

theorem field_masked (p : Predicate) : p.masked.field = p.field := by
  rw [masked]
  split <;> rfl

theorem operator_masked (p : Predicate) : p.masked.operator = p.operator := by
  rw [masked]
  split <;> rfl

def settledValue (v : Value) : Value :=
  match Cast.toBool v with
  | .ok b => .bool b
  | .error _ => v

/-- What conversion makes of a predicate whose literals are masked: a question for presence is
asked by a boolean. -/
def settled (p : Predicate) : Predicate :=
  if p.operator = .specified then { p with values := p.values.map settledValue } else p

end Predicate

theorem Filter.mapM_fields_masked (g : String → Outcome α) (f : Filter) :
    (f.masked.leaves.mapM fun p => g p.field) = f.leaves.mapM fun p => g p.field := by
  rw [masked, leaves_map, List.mapM_map]
  congr 1
  funext p
  exact congrArg g p.field_masked

namespace Compile

def Parsed.masked (q : Parsed) : Parsed :=
  { q with spec := q.spec.masked, keep := q.keep.masked, having := q.having.masked }

theorem typedPredicate_masked (h : typedPredicate caps fields p = .ok u) :
    u.masked = p.masked.settled := by
  obtain ⟨ref, values, _, rfl, _, _, _, hv⟩ := typedPredicate_eq_ok h
  have hrel := forall₂_of_mapM hv
  by_cases hs : p.operator = .specified
  · have hvalues : p.values.map Predicate.settledValue = values.map id := by
      apply map_eq_of_forall₂
      apply hrel.imp
      intro v w hc
      rw [convertLiteral, if_pos hs] at hc
      rw [Predicate.settledValue, id]
      cases hb : Cast.toBool v with
      | error e =>
        rw [hb] at hc
        cases hc
      | ok b =>
        rw [hb] at hc
        cases hc
        rfl
    have hp : p.masked = p := if_pos hs
    rw [hp, Predicate.masked, if_pos hs, Predicate.settled, if_pos hs, hvalues, List.map_id]
  · have hvalues : p.values.map Value.masked = values.map Value.masked := by
      apply map_eq_of_forall₂
      apply hrel.imp
      intro v w hc
      rw [Value.masked, Value.masked, convertLiteral_isNull hs hc]
    rw [Predicate.settled, Predicate.operator_masked, if_neg hs, Predicate.masked, if_neg hs,
      Predicate.masked, if_neg hs, hvalues]

theorem typed_masked (h : typed caps fields f = .ok t) :
    t.masked = f.masked.map Predicate.settled := by
  rw [Filter.masked, Filter.masked, Filter.map_map]
  exact Filter.map_of_transform (fun _ _ => typedPredicate_masked) h

theorem filterStage_masked {stage : Filter → Stage} (hs : ∀ t, (stage t).masked = stage t.masked)
    (hf : f.masked = f'.masked) (h : filterStage caps fields stage f = .ok steps)
    (h' : filterStage caps fields stage f' = .ok steps') :
    steps.map Stage.masked = steps'.map Stage.masked := by
  have hall : f.isAll = f'.isAll := by
    rw [← Filter.isAll_map Predicate.masked f, ← Filter.isAll_map Predicate.masked f']
    exact congrArg Filter.isAll hf
  rcases filterStage_eq_ok h with ⟨ha, rfl⟩ | ⟨ha, t, ht, rfl⟩
  · rcases filterStage_eq_ok h' with ⟨_, rfl⟩ | ⟨ha', _⟩
    · rfl
    · rw [hall, ha'] at ha
      cases ha
  · rcases filterStage_eq_ok h' with ⟨ha', _⟩ | ⟨_, t', ht', rfl⟩
    · rw [hall, ha'] at ha
      cases ha
    · rw [List.map_singleton, List.map_singleton, hs, hs, typed_masked ht, typed_masked ht', hf]

theorem read_masked (h : read spec = .ok q) : read spec.masked = .ok q.masked := by
  have hr := read_eq_ok h
  have hpage : spec.page.validate = .ok () := read_page h
  have hmasked : spec.masked.page = spec.page := rfl
  have hkeep : Filter.build spec.masked.criteria = .ok q.keep.masked := Filter.build_masked hr.keep
  have hhaving : Filter.build spec.masked.having = .ok q.having.masked :=
    Filter.build_masked hr.having
  have hselect : readSelection [] spec.masked.select = .ok q.selection := hr.selection
  have hrefs := hr.refs
  rw [← Filter.mapM_fields_masked] at hrefs
  have hspec := read_spec h
  rw [read, hmasked, hpage]
  simp only [hkeep, hhaving, hselect, hrefs]
  have hgrouped : (!q.havingRefs.isEmpty &&
      !Parsed.grouped ⟨spec.masked, q.keep.masked, q.having.masked, q.selection, q.havingRefs⟩) =
        false := by
    subst hspec
    cases hn : q.havingRefs.isEmpty with
    | true => rfl
    | false =>
      have hg : q.grouped = true := hr.grouped (List.isEmpty_eq_false_iff.1 hn)
      have hm : q.masked.grouped = q.grouped := rfl
      rw [← hm] at hg
      rw [Bool.not_false, Bool.true_and, Bool.not_eq_false']
      exact hg
  rw [hgrouped, if_neg Bool.false_ne_true, Parsed.masked, hspec]

theorem paths_masked (q : Parsed) : q.masked.paths = q.paths := by
  have hkeep : (q.masked.keep.leaves.mapM fun p => plainPath "where" p.field) =
      q.keep.leaves.mapM fun p => plainPath "where" p.field :=
    Filter.mapM_fields_masked (plainPath "where") q.keep
  rw [Parsed.paths, hkeep]
  rfl

variable {q q' : Parsed}

theorem Ending.masked (hq : q.masked = q'.masked) (h : Ending q fields g countOnly ending)
    (h' : Ending q' fields g countOnly ending') : ending = ending' := by
  have hsort (q : Parsed) : sortStages q.masked fields g = sortStages q fields g := rfl
  have hproject (q : Parsed) : projectStages q.masked fields g = projectStages q fields g := rfl
  have hpage (q : Parsed) : q.masked.spec.page = q.spec.page := rfl
  cases h with
  | count =>
    cases h'
    rfl
  | find hs =>
    cases h' with
    | find hs' =>
      rw [← hsort, hq, hsort, hs'] at hs
      cases hs
      rw [← hproject q, ← hpage q, hq]
      rfl

theorem stages_masked (hq : q.masked = q'.masked)
    (h : stages caps root q lookups fields g countOnly = .ok steps)
    (h' : stages caps root q' lookups fields g countOnly = .ok steps') :
    steps.map Stage.masked = steps'.map Stage.masked := by
  obtain ⟨shared, ending, hshared, hending, rfl⟩ := stages_eq_ok h
  obtain ⟨shared', ending', hshared', hending', rfl⟩ := stages_eq_ok h'
  obtain ⟨keep, having, hkeep, hhaving, rfl⟩ := sharedStages_eq_ok hshared
  obtain ⟨keep', having', hkeep', hhaving', rfl⟩ := sharedStages_eq_ok hshared'
  have hgrouped : q.grouped = q'.grouped := by
    have hmasked (q : Parsed) : q.masked.grouped = q.grouped := rfl
    rw [← hmasked, hq, hmasked]
  have hdistinct : q.spec.distinct = q'.spec.distinct := by
    have hmasked (q : Parsed) : q.masked.spec.distinct = q.spec.distinct := rfl
    rw [← hmasked, hq, hmasked]
  simp only [List.map_append, hgrouped, hdistinct, Ending.masked hq hending hending',
    filterStage_masked (fun _ => rfl) (congrArg Parsed.keep hq) hkeep hkeep',
    filterStage_masked (fun _ => rfl) (congrArg Parsed.having hq) hhaving hhaving']

end Compile

namespace Compiler

open Compile

theorem run_countOnly (h : run c root spec countOnly = .ok plan) : plan.countOnly = countOnly := by
  rw [run] at h
  split at h
  · cases h
  · obtain ⟨q, _, h⟩ := bind_eq_ok h
    rw [planOf] at h
    split at h
    · cases h
    · split at h
      · cases h
      · split at h
        · cases h
        · obtain ⟨steps, _, rfl⟩ := map_eq_ok h
          rfl

variable {plan plan' : Plan} {q q' : Parsed} {raws raws' : List String}
  {resolution resolution' : Resolution} {g g' : Grouping}

/-- Queries that are equal up to their literals are compiled alike. -/
theorem Compiles.masked (hs : spec.masked = spec'.masked)
    (h : Compiles c root spec countOnly plan q raws resolution g)
    (h' : Compiles c root spec' countOnly plan' q' raws' resolution' g') :
    q.masked = q'.masked ∧ plan.root = plan'.root ∧ plan.fields = plan'.fields ∧
      plan.stages.map Stage.masked = plan'.stages.map Stage.masked := by
  -- Each step of the compiler reads the query only through what masking keeps, so the results of
  -- the two runs are equal one after another.
  have hq : q.masked = q'.masked := by
    have hread := read_masked h.read
    rw [hs, read_masked h'.read] at hread
    exact (Except.ok.inj hread).symm
  have hroot : plan.root = plan'.root := Option.some.inj (h.entity.symm.trans h'.entity)
  have hraws : raws = raws' := by
    have hp := h.paths
    rw [← paths_masked, hq, paths_masked, h'.paths] at hp
    exact (Except.ok.inj hp).symm
  have hresolution : resolution = resolution' := by
    have hr := h.resolve
    rw [hroot, hraws, h'.resolve] at hr
    exact (Except.ok.inj hr).symm
  have hgrouping : (plan.fields, g) = (plan'.fields, g') := by
    have hmasked (q : Parsed) :
        q.masked.grouping resolution.fields = q.grouping resolution.fields := rfl
    have hg := h.grouping
    rw [← hmasked, hq, hmasked, hresolution, h'.grouping] at hg
    exact (Except.ok.inj hg).symm
  obtain ⟨hfields, hg⟩ := Prod.ext_iff.1 hgrouping
  dsimp only at hfields hg
  have hstages := h.stages
  rw [hroot, hresolution, hfields, hg] at hstages
  exact ⟨hq, hroot, hfields, stages_masked hq hstages h'.stages⟩

theorem run_masked (hs : spec.masked = spec'.masked) (h : run c root spec countOnly = .ok plan)
    (h' : run c root spec' countOnly = .ok plan') : plan.masked = plan'.masked := by
  obtain ⟨_, _, _, _, hc⟩ := run_eq_ok h
  obtain ⟨_, _, _, _, hc'⟩ := run_eq_ok h'
  obtain ⟨_, hroot, hfields, hstages⟩ := hc.masked hs hc'
  rw [Plan.masked, Plan.masked, hstages, hroot, hfields, run_countOnly h, run_countOnly h']

end Compiler

end NeutralQuery
