import NeutralQuery.Proofs.Memory.Joining

namespace NeutralQuery

namespace FieldPath

variable {raw p t : String}

theorem location_pair (p t : String) (marked : Bool) :
    (location ⟨[p, t], marked⟩).toList = p.toList ++ '.' :: t.toList := by
  rw [location, Text.join, String.toList_ofList]
  rfl

theorem not_solid_pair (p t : String) (marked : Bool) :
    ¬Text.Solid '.' (location ⟨[p, t], marked⟩) := by
  rw [Text.Solid, location_pair, not_not]
  exact List.mem_append_right _ List.mem_cons_self

theorem unmarked_of_parse (h : parse raw = .ok ⟨[p, t], true⟩) : '<' ∉ p.toList := by
  intro hm
  have hloc := location_unmarked h rfl
  rw [location_pair] at hloc
  have hin : '<' ∈ raw.toList.map Text.unmarked := hloc ▸ List.mem_append_left _ hm
  obtain ⟨c, _, hc⟩ := List.mem_map.1 hin
  exact Text.unmarked_ne c hc

end FieldPath

theorem FieldRef.Resolves.reference (h : FieldRef.Resolves catalog root p ref)
    (hp : Text.Solid '.' p) (hm : '<' ∉ p.toList)
    (hr : catalog.reference? root.name p = some edge) :
    ref.location = p ∧ ref.type = .object := by
  obtain ⟨q, lookups, hparse, ho⟩ := h
  have hloc := FieldPath.location_eq_of_unmarked hparse hm
  have hsegments : q.segments = [p] := by
    rw [← FieldPath.split_location hparse, hloc, Text.split_of_solid hp]
  obtain ⟨⟨type, walked⟩, hw, he⟩ := map_eq_ok ho
  have hwalks := Resolution.walks_of_walk hw
  rw [hsegments] at hwalks
  cases he
  refine ⟨hloc, ?_⟩
  cases hwalks with
  | reference => rfl
  | through _ _ hn => exact absurd rfl hn
  | field hr' => cases hr.symm.trans hr'
  | embedded hr' => cases hr.symm.trans hr'
  | free hr' => cases hr.symm.trans hr'

namespace Memory

variable {fields : FieldTable} {row : Row} {registry : Registry}

theorem context_isNull (hf : fields.find? raw = some ref) (hg : row.get? ref.location = some v)
    (h : context fields row raw = .ok w) : w.isNull = v.isNull := by
  simp only [context, hf, Option.map_some, Option.getD_some, hg] at h
  split at h
  · cases h
    rfl
  · split at h
    · obtain ⟨ws, _, rfl⟩ := map_eq_ok h
      rfl
    · exact convert_isNull h

theorem field_isNull (hs : fields.Sourced catalog root) (hf : fields.find? raw = some ref)
    (ha : Aggregate.isAggregate raw = false) (h : (context fields row).field raw = .ok w) :
    w.isNull = (row.get ref.location).isNull := by
  rcases context_cases hf row with ⟨hg, hc⟩ | ⟨e, hc, hu⟩ | ⟨x, hc, _⟩
  · have hnull : (context fields row).field raw = .ok .null :=
      field_of_missing hc fun path hp hl => get_unmarked hs hf ha hg hp hl
    cases h.symm.trans hnull
    rw [Row.get, hg]
    rfl
  · cases h.symm.trans (hu.field_eq hc)
  · have hx : (context fields row).field raw = .ok x := by rw [Context.field, hc]
    cases h.symm.trans hx
    cases hg : row.get? ref.location with
    | none =>
      simp only [context, hf, Option.map_some, Option.getD_some, hg] at hc
      cases hc
    | some v =>
      rw [context_isNull hf hg hc, Row.get, hg]
      rfl

theorem get_reference (hres : fields.Resolved catalog root) (hp : Text.Solid '.' p)
    (hm : '<' ∉ p.toList) (hr : catalog.reference? root.name p = some edge) :
    (context fields row).get p = .ok ((Row.find? row p).getD .null) := by
  have hget := Row.get?_of_solid row hp
  rw [Context.get]
  cases hf : fields.find? p with
  | none =>
    simp only [context, hf, Option.map_none, Option.getD_none, hget]
    cases Row.find? row p <;> rfl
  | some ref =>
    obtain ⟨hloc, htype⟩ := (hres p ref hf).reference hp hm hr
    simp only [context, hf, Option.map_some, Option.getD_some, hloc, hget, htype, if_true]
    cases Row.find? row p <;> rfl

theorem holdsPredicate_absent (hraw : FieldPath.parse raw = .ok ⟨[p, t], true⟩)
    (hfield : (context fields row).field raw = .ok w)
    (hparent : (context fields row).get p = .ok u) :
    Filter.holdsPredicate registry (context fields row) ⟨raw, .specified, [.bool false]⟩ =
      .ok (!u.isNull && w.isNull) := by
  have hloc : (FieldPath.parent ⟨[p, t], true⟩).location = p := String.ofList_toList
  have hfalse : Cast.toBool (Predicate.value ⟨raw, .specified, [.bool false]⟩) = .ok false := rfl
  simp only [Filter.holdsPredicate, hfield, Filter.isSpecified, hfalse, hraw, hloc, hparent,
    if_true, Except.map]

theorem select_evaluates (h : select registry fields f rows = .ok out) (hr : row ∈ rows) :
    ∃ b, f.evaluate registry (context fields row) = .ok b := by
  induction rows generalizing out with
  | nil => cases hr
  | cons first rest ih =>
    rw [select] at h
    split at h
    · cases h
    next keep hk =>
      obtain ⟨kept, hrest, _⟩ := map_eq_ok h
      rcases List.mem_cons.1 hr with rfl | hr
      · exact ⟨keep, hk⟩
      · exact ih hrest hr

theorem evaluate_absent (hres : fields.Resolved catalog root)
    (hraw : FieldPath.parse raw = .ok ⟨[p, t], true⟩) (hf : fields.find? raw = some ref)
    (ha : Aggregate.isAggregate raw = false) (hr : catalog.reference? root.name p = some edge)
    (hp : Text.Solid '.' p)
    (h : Filter.evaluate registry (context fields row)
      (.predicate ⟨raw, .specified, [.bool false]⟩) = .ok passes) :
    passes = (!((Row.find? row p).getD .null).isNull &&
      (row.get (FieldPath.location ⟨[p, t], true⟩)).isNull) := by
  obtain ⟨path, _, hparse, ho⟩ := hres raw ref hf
  cases hraw.symm.trans hparse
  have hloc : ref.location = FieldPath.location ⟨[p, t], true⟩ := (Resolution.ofPath_eq_ok ho).2.2.1
  have hparent : (context fields row).get p = .ok ((Row.find? row p).getD .null) :=
    get_reference hres hp (FieldPath.unmarked_of_parse hraw) hr
  rw [Filter.evaluate_predicate] at h
  cases hfield : (context fields row).field raw with
  | error e =>
    rw [Filter.holdsPredicate, hfield] at h
    cases h
  | ok w =>
    rw [holdsPredicate_absent hraw hfield hparent] at h
    cases h
    rw [field_isNull hres.sourced hf ha hfield, hloc]

theorem apply_keep (h : apply registry store fields (.keep f :: rest) rows = .ok out) :
    ∃ kept, select registry fields f rows = .ok kept := by
  rw [apply, step] at h
  cases hs : select registry fields f rows with
  | error e =>
    rw [hs] at h
    cases h
  | ok kept => exact ⟨kept, rfl⟩

/-- What the filter for the absence of a value makes of a joined row. -/
theorem Standing.verdict (h : Standing p t records entered row) (ht : Text.Solid '.' t)
    (hs : Text.split '.' location = [p, t]) (hd : Row.find? row location = none)
    (hb : passes = (!((Row.find? row p).getD .null).isNull && (row.get location).isNull)) :
    (records = [] → (passes = true ↔ entered)) ∧
      (records ≠ [] → ∃ m ∈ records,
        (∃ inner, Row.find? row p = some (.record inner) ∧ Row.find? inner t = Row.find? m t) ∧
          passes = (m.get t).isNull) := by
  have hwalk : row.get? location = (Row.find? row p).bind (Row.walk? [t]) := by
    rw [Row.get?, hd, hs]
    rfl
  have hrecord {inner : Row} (hp : Row.find? row p = some (.record inner)) :
      passes = ((Row.find? inner t).getD .null).isNull := by
    rw [hb, Row.get, hwalk, hp]
    simp only [Option.getD_some, Option.bind_some, Row.walk?]
    cases Row.find? inner t <;> rfl
  cases h with
  | record m inner hm hp hmember =>
    refine ⟨fun hn => absurd hm (hn ▸ List.not_mem_nil), fun _ => ?_⟩
    refine ⟨m, hm, ⟨inner, hp, hmember⟩, ?_⟩
    rw [hrecord hp, hmember, Row.get, Row.get?_of_solid m ht]
  | absent hn hp he =>
    refine ⟨fun _ => ⟨fun hpass => ?_, fun hin => absurd hin he⟩, fun hne => absurd hn hne⟩
    rw [hb, hp] at hpass
    cases hpass
  | hollow inner hn hp hmember he =>
    refine ⟨fun _ => ⟨fun _ => he, fun _ => ?_⟩, fun hne => absurd hn hne⟩
    rw [hrecord hp, hmember]
    rfl

end Memory

namespace Filter

theorem build_specified (hn : raw ≠ "") (v : Value) :
    build [⟨raw, Operator.specified.token, [v]⟩] = .ok (.predicate ⟨raw, .specified, [v]⟩) := by
  have hparse : Operator.parse? Operator.specified.token = some .specified := by decide
  have hleaf : Criteria.leaf raw Operator.specified.token [v] = .ok ⟨raw, .specified, [v]⟩ := by
    rw [Criteria.leaf, hparse]
    exact if_neg hn
  have hgroup : Operator.specified.token ≠ groupToken := by decide
  have hmarker : (Operator.specified.token == orToken) = false := by decide
  have hor : Criterion.isOr ⟨raw, Operator.specified.token, [v]⟩ = false := hmarker
  have hparts : Criteria.alternatives [⟨raw, Operator.specified.token, [v]⟩] =
      .ok [[.predicate ⟨raw, .specified, [v]⟩]] := by
    simp [Criteria.alternatives, hor, Criteria.ofCriterion, hgroup, hleaf, Except.map,
      Criteria.addFirst]
  have hvalid : Criteria.validate [⟨raw, Operator.specified.token, [v]⟩] = .ok () := by
    simp [Criteria.validate, hor, Criteria.adjacentOrs]
  simp [build, Criteria.ofList, Criteria.assemble, hvalid, hparts, Except.map, Criteria.disjoin,
    Criteria.conjoin]

end Filter

namespace Compile

theorem filterStage_specified (hv : Cast.toBool v = .ok false)
    (h : filterStage caps fields .keep (.predicate ⟨raw, .specified, [v]⟩) = .ok keep) :
    keep = [.keep (.predicate ⟨raw, .specified, [.bool false]⟩)] ∧
      ∃ ref, fields.find? raw = some ref := by
  rcases filterStage_eq_ok h with ⟨hn, _⟩ | ⟨_, f, hf, rfl⟩
  · cases hn
  · obtain ⟨q, hq, rfl⟩ := map_eq_ok hf
    obtain ⟨ref, values, hfind, rfl, _, _, _, hvalues⟩ := typedPredicate_eq_ok hq
    have hliteral : convertLiteral ref .specified v = .ok (.bool false) := by
      rw [convertLiteral, if_pos rfl, hv]
    rw [List.mapM_cons, hliteral] at hvalues
    cases hvalues
    exact ⟨rfl, ref, hfind⟩

end Compile

/-- The records that a reference of the root leads to from a row. -/
def Memory.recordsAt (registry : Registry) (store : Store) (edge : Edge) (target : Entity)
    (p : String) (row : Row) : List Row :=
  referenced registry (store.collection target.collection) (Resolution.lookupFor edge target p "")
    row

/-- A query for the rows whose record at a reference of the root has no value in a field. -/
structure Compiler.Lacking (c : Compiler) (root : Entity) (spec : QuerySpec) (p t : String)
    (edge : Edge) (target : Entity) : Prop where
  criterion : ∃ raw v, spec.criteria = [⟨raw, Operator.specified.token, [v]⟩] ∧
    FieldPath.parse raw = .ok ⟨[p, t], true⟩ ∧ Cast.toBool v = .ok false
  reference : c.catalog.reference? root.name p = some edge
  one : edge.multiplicity = .one
  entity : c.catalog.entity? edge.target = some target
  field : ∃ field, target.field? t = some field ∧ field.embedded = ""
  plain : c.catalog.reference? target.name t = none

/-- No join comes by way of the name of a reference of the root, and none before that of the
reference writes at its key. -/
structure Plan.Undisturbed (plan : Plan) (p key : String) : Prop where
  output : ∀ l ∈ plan.lookups, l.output ≠ p
  key : ∀ l ∈ plan.lookups.takeWhile (·.path != p), ∀ path ∈ [l.output, l.path],
    Apart (Text.split '.' path) (Text.split '.' key)

namespace Compiler

open Compile

variable {q : Parsed} {raws : List String} {resolution : Resolution} {g : Grouping}

theorem Lacking.solid (h : Lacking c root spec p t edge target) :
    Text.Solid '.' p ∧ Text.Solid '.' t := by
  obtain ⟨raw, _, _, hparse, _⟩ := h.criterion
  have hs := (FieldPath.parse_segments hparse).2
  exact ⟨hs p List.mem_cons_self, hs t (List.mem_cons_of_mem p List.mem_cons_self)⟩

theorem Lacking.not_leads (h : Lacking c root spec p t edge target) :
    ¬Resolution.Leads c.catalog target t := by
  rintro (⟨other, ho⟩ | ⟨field, hf, he⟩)
  · rw [h.plain] at ho
    cases ho
  · obtain ⟨field', hf', he'⟩ := h.field
    cases hf.symm.trans hf'
    exact he he'

/-- The plan of such a query filters for absence right after its joins. -/
theorem Compiles.lacking (h : Compiles c root spec countOnly plan q raws resolution g)
    (hl : Lacking c plan.root spec p t edge target) :
    ∃ raw rest, FieldPath.parse raw = .ok ⟨[p, t], true⟩ ∧ raw ∈ raws ∧
      Aggregate.isAggregate raw = false ∧ (∃ ref, plan.fields.find? raw = some ref) ∧
      plan.stages = plan.lookups.flatMap lookupStages ++
        .keep (.predicate ⟨raw, .specified, [.bool false]⟩) :: rest := by
  obtain ⟨raw, v, hcriteria, hparse, hv⟩ := hl.criterion
  have hne : raw ≠ "" := by
    rintro rfl
    cases hparse
  have hkeep : q.keep = .predicate ⟨raw, .specified, [v]⟩ := by
    have hbuild := (read_eq_ok h.read).keep
    rw [hcriteria, Filter.build_specified hne] at hbuild
    exact (Except.ok.inj hbuild).symm
  have hnames := (paths_eq_ok h.paths).kept ⟨raw, .specified, [v]⟩ (hkeep ▸ List.mem_cons_self)
  obtain ⟨_, keep, rest, hstage, hstages⟩ := h.stages_joins
  rw [hkeep] at hstage
  obtain ⟨rfl, hfind⟩ := filterStage_specified hv hstage
  exact ⟨raw, rest, hparse, hnames.2, hnames.1, hfind, hstages⟩

theorem Compiles.standing (h : Compiles c root spec countOnly plan q raws resolution g)
    (hl : Lacking c plan.root spec p t edge target) (hclear : plan.Undisturbed p edge.localField)
    (hj : j ∈ Memory.joined registry store plan.lookups row) :
    Memory.Standing p t (Memory.recordsAt registry store edge target p row)
      (∃ l ∈ plan.lookups, l.Within p) j := by
  obtain ⟨raw, rest, hparse, hraw, _⟩ := h.lacking hl
  have hlookups := h.stages_joins.1
  have hformed := Resolution.resolve_formed h.resolve
  obtain ⟨before, after, heq, hbefore, hafter⟩ :=
    Resolution.resolve_arranged hl.reference hl.entity h.resolve hraw hparse rfl
  rw [← hlookups] at heq hformed
  have hout : ∀ l ∈ before, (l.path != p) = true := by
    intro l hm
    refine bne_iff_ne.2 fun he => hbefore l hm ?_
    rw [he, Text.split_of_solid hl.solid.1]
    rfl
  have hkey : ∀ l ∈ before, ∀ path ∈ [l.output, l.path],
      Apart (Text.split '.' path) (Text.split '.' edge.localField) := by
    intro l hm
    refine hclear.key l ?_
    rw [heq, List.takeWhile_append_of_pos hout]
    exact List.mem_append_left _ hm
  have hother : ∀ l ∈ after, l.output ≠ p ∧ (l.Outside p ∨
      ∃ s more, Text.split '.' l.path = p :: s :: more ∧ s ≠ t) := by
    intro l hm
    have hin : l ∈ plan.lookups := heq ▸ List.mem_append_right _ (List.mem_cons_of_mem _ hm)
    refine ⟨hclear.output l hin, (hafter l hm).imp_right ?_⟩
    rintro ⟨s, more, hsplit, hleads⟩
    exact ⟨s, more, hsplit, fun he => hl.not_leads (he ▸ hleads)⟩
  rw [heq] at hj hformed
  refine (Memory.joined_standing hl.one hl.solid.1 hformed hkey hother hj).congr ?_
  rw [heq]
  constructor
  · rintro ⟨l, hm, hw⟩
    exact ⟨l, List.mem_append_right _ (List.mem_cons_of_mem _ hm), hw⟩
  · rintro ⟨l, hm, hw⟩
    rcases List.mem_append.1 hm with hm | hm
    · exact absurd hw (hbefore l hm).not_within
    · rcases List.mem_cons.1 hm with rfl | hm
      · obtain ⟨s, more, hsplit⟩ := hw
        cases hsplit.symm.trans (Text.split_of_solid hl.solid.1)
      · exact ⟨l, hm, hw⟩

/-- Of the rows with a record at the reference, the filter takes those whose record has no value. A
row without a record is taken where, and only where, a join goes through the reference. -/
theorem absence_across_join {c : Compiler} {plan : Plan}
    (h : c.run root spec countOnly = .ok plan) (hg : plan.group? = none)
    (hl : Lacking c plan.root spec p t edge target) (hclear : plan.Undisturbed p edge.localField)
    (hrun : Memory.find registry store plan = .ok rows) :
    ∃ f rest, plan.stages = plan.lookups.flatMap lookupStages ++ .keep f :: rest ∧
      Memory.apply registry store plan.fields (plan.lookups.flatMap lookupStages)
          (store.collection plan.root.collection) =
        .ok ((store.collection plan.root.collection).flatMap
          (Memory.joined registry store plan.lookups)) ∧
      ∀ row ∈ store.collection plan.root.collection,
        Row.find? row (FieldPath.location ⟨[p, t], true⟩) = none →
        ∀ j ∈ Memory.joined registry store plan.lookups row, ∃ passes,
          f.evaluate registry (Memory.context plan.fields j) = .ok passes ∧
          (Memory.recordsAt registry store edge target p row = [] →
            (passes = true ↔ ∃ l ∈ plan.lookups, l.Within p)) ∧
          (Memory.recordsAt registry store edge target p row ≠ [] →
            ∃ m ∈ Memory.recordsAt registry store edge target p row,
              (∃ inner, Row.find? j p = some (.record inner) ∧
                Row.find? inner t = Row.find? m t) ∧ passes = (m.get t).isNull) := by
  obtain ⟨q, raws, resolution, g, hc⟩ := run_eq_ok h
  obtain ⟨raw, rest, hparse, _, hplain, ⟨ref, hfind⟩, hstages⟩ := hc.lacking hl
  refine ⟨_, rest, hstages, Memory.apply_joins _ _, fun row hrow hd j hj => ?_⟩
  obtain ⟨passes, hpasses⟩ : ∃ b, Filter.evaluate registry (Memory.context plan.fields j)
      (.predicate ⟨raw, .specified, [.bool false]⟩) = .ok b := by
    rw [Memory.find, hstages, Memory.apply_append, Memory.apply_joins] at hrun
    obtain ⟨kept, hkept⟩ := Memory.apply_keep hrun
    exact Memory.select_evaluates hkept (List.mem_flatMap.2 ⟨row, hrow, hj⟩)
  have hresolved : plan.fields.Resolved c.catalog plan.root := by
    rcases grouping_eq_ok hc.grouping with ⟨_, hfields, _⟩ | ⟨hgrouped, _⟩
    · exact hfields ▸ hc.resolved
    · rw [hc.group?_eq_none.1 hg] at hgrouped
      cases hgrouped
  refine ⟨passes, hpasses, ?_⟩
  refine (hc.standing hl hclear hj).verdict hl.solid.2 (FieldPath.split_location hparse) ?_ ?_
  · have hformed := Resolution.resolve_formed hc.resolve
    rw [← hc.stages_joins.1] at hformed
    exact (Memory.joined_dotted hformed (FieldPath.not_solid_pair p t true) hj).trans hd
  · exact Memory.evaluate_absent hresolved hparse hfind hplain hl.reference hl.solid.1 hpasses

end Compiler

namespace Sample.Leagues

def person : Entity := ⟨"person", "people", "id", [⟨"id", .int, ""⟩, ⟨"team_id", .int, ""⟩]⟩

def team : Entity :=
  ⟨"team", "teams", "id", [⟨"id", .int, ""⟩, ⟨"name", .string, ""⟩, ⟨"league_id", .int, ""⟩]⟩

def league : Entity := ⟨"league", "leagues", "id", [⟨"id", .int, ""⟩, ⟨"title", .string, ""⟩]⟩

def membership : Edge := ⟨"person", "team", "team", .one, "team_id", "id", false⟩

def participation : Edge := ⟨"team", "league", "league", .one, "league_id", "id", false⟩

def compiler : Compiler := ⟨⟨[person, team, league], [membership, participation]⟩, .memory⟩

def nameless : QuerySpec where
  criteria := [⟨"team<name", "SPECIFIED", [.bool false]⟩]
  select := [.ofField "id", .ofField "team.league.title"]

def nameField : FieldRef :=
  { raw := "team<name", location := "team.name", type := .string, leftJoin := true,
    parentLocation := "team", parentIsReference := true, references := ["team"] }

def titleField : FieldRef :=
  { raw := "team.league.title", location := "team.league.title", type := .string,
    parentLocation := "team.league", parentIsReference := true,
    references := ["team", "team.league"] }

def joins : List Lookup :=
  [⟨"team", "__team", "", "team_id", membership, team⟩,
    ⟨"team.league", "__team_league", "team", "team.league_id", participation, league⟩]

def plan : Plan where
  root := person
  stages := joins.flatMap Compile.lookupStages ++
    [.keep (.predicate ⟨"team<name", .specified, [.bool false]⟩),
      .project [("id", "id"), ("team.league.title", "team.league.title")]]
  fields := [("id", idField), ("team<name", nameField), ("team.league.title", titleField)]
  countOnly := false

theorem compile_nameless : compiler.run "person" nameless false = .ok plan := by
  let raws := ["team<name", "id", "team.league.title"]
  let q : Compile.Parsed := ⟨nameless, .predicate ⟨"team<name", .specified, [.bool false]⟩, .all,
    [⟨"id", ⟨"id", "id", none⟩⟩,
      ⟨"team.league.title", ⟨"team.league.title", "team.league.title", none⟩⟩], []⟩
  have hq : Compile.read nameless = .ok q := rfl
  have hp : q.paths = .ok raws := rfl
  have hr : Resolution.resolve compiler.catalog person raws = .ok ⟨joins, plan.fields⟩ := rfl
  have hg : q.grouping plan.fields = .ok (plan.fields, {}) := rfl
  exact Compiler.run_of_steps rfl hq hp hr hg rfl

theorem lacking : Compiler.Lacking compiler person nameless "team" "name" membership team where
  criterion := ⟨"team<name", .bool false, rfl, rfl, rfl⟩
  reference := rfl
  one := rfl
  entity := rfl
  field := ⟨⟨"name", .string, ""⟩, rfl, rfl⟩
  plain := rfl

theorem undisturbed : plan.Undisturbed "team" "team_id" where
  output := by decide
  key := by decide

/-- One whose team has no name. -/
def enrolled : Row := [("id", .ofInt64 1), ("team_id", .ofInt64 10)]

/-- One whose team is not in the store. -/
def stray : Row := [("id", .ofInt64 2), ("team_id", .ofInt64 99)]

def store : Store :=
  [("people", [enrolled, stray]),
    ("teams", [[("id", .ofInt64 10), ("name", .null), ("league_id", .ofInt64 5)]]),
    ("leagues", [[("id", .ofInt64 5), ("title", .text "First")]])]

def rows : List Row :=
  [[("id", .ofInt64 1), ("team.league.title", .text "First")],
    [("id", .ofInt64 2), ("team.league.title", .null)]]

theorem find_rows : Memory.find .standard store plan = .ok rows := rfl

end Sample.Leagues

section

open Sample.Leagues

theorem Compiler.absence_across_join_leagues :
    compiler.run "person" nameless false = .ok plan ∧
      Compiler.Lacking compiler plan.root nameless "team" "name" membership team ∧
      plan.Undisturbed "team" "team_id" ∧ Memory.find .standard store plan = .ok rows ∧
      ∃ f rest, plan.stages = joins.flatMap Compile.lookupStages ++ .keep f :: rest ∧
        ∀ j ∈ Memory.joined .standard store plan.lookups enrolled,
          f.evaluate .standard (Memory.context plan.fields j) = .ok true := by
  refine ⟨compile_nameless, lacking, undisturbed, find_rows, ?_⟩
  obtain ⟨f, rest, hs, _, hall⟩ :=
    Compiler.absence_across_join compile_nameless rfl lacking undisturbed find_rows
  refine ⟨f, rest, hs, fun j hj => ?_⟩
  obtain ⟨passes, he, _, hsome⟩ := hall enrolled List.mem_cons_self rfl j hj
  have hrecords : Memory.recordsAt .standard store membership team "team" enrolled =
      [[("id", .ofInt64 10), ("name", .null), ("league_id", .ofInt64 5)]] := rfl
  rw [hrecords] at hsome
  obtain ⟨m, hm, _, hp⟩ := hsome (List.cons_ne_nil _ _)
  cases List.mem_singleton.1 hm
  rw [he, hp]
  rfl

/-- The filter for a team without a name takes a row without a team when the title of its league is
selected. -/
theorem Compiler.absence_without_record :
    compiler.run "person" nameless false = .ok plan ∧ stray ∈ store.collection "people" ∧
      Memory.recordsAt .standard store membership team "team" stray = [] ∧
      (∀ j ∈ Memory.joined .standard store plan.lookups stray,
        Filter.evaluate .standard (Memory.context plan.fields j)
          (.predicate ⟨"team<name", .specified, [.bool false]⟩) = .ok true) ∧
      Memory.find .standard store plan =
        .ok [[("id", .ofInt64 1), ("team.league.title", .text "First")],
          [("id", .ofInt64 2), ("team.league.title", .null)]] := by
  refine ⟨compile_nameless, List.mem_cons_of_mem _ List.mem_cons_self, rfl, fun j hj => ?_,
    find_rows⟩
  cases List.mem_singleton.1 hj
  rfl

end

end NeutralQuery
