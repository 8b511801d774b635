import NeutralQuery.Proofs.Document.Keys

namespace NeutralQuery

namespace Document

/-- A stage that removes the value at a path, by the path itself or by one that it begins with. -/
def Removes (path : String) (d : Value) : Prop :=
  ∃ removed, d = single "$unset" (.text removed) ∧
    (removed = path ∨ (removed ++ ".").toList <+: path.toList)

variable {stage : Stage} {fields : FieldTable} {keys : List GroupKey}
  {accumulators : List Accumulator}

theorem single_ne (h : key ≠ other) (v w : Value) : single key v ≠ single other w := by
  intro he
  cases he
  exact h rfl

theorem not_removes_single (h : key ≠ "$unset") (v : Value) : ¬Removes path (single key v) := by
  rintro ⟨removed, he, _⟩
  exact single_ne h _ _ he

theorem not_removes_of_closing (hc : stage.IsClosing ∨ ∃ f, stage = .having f)
    (h : stageDocuments fields stage = .ok docs) : ∀ d ∈ docs, ¬Removes path d := by
  rcases hc with hc | ⟨f, rfl⟩
  · cases stage with
    | sort | project | skip | limit | count =>
      cases h
      exact List.forall_mem_singleton.2 (not_removes_single (by decide) _)
    | _ => cases hc
  · obtain ⟨m, _, rfl⟩ := map_eq_ok h
    exact List.forall_mem_singleton.2 (not_removes_single (by decide) _)

theorem groupStages_keyed (hk : keys ≠ []) (h : groupStages keys accumulators = .ok docs) :
    ∃ computed, computed.map (·.1) = accumulators.map (·.name) ∧
      docs = [single "$group"
          (doc (("_id", doc (keys.mapIdx fun i k => (keyName i, valueAt k.path))) :: computed)),
        single "$set" (doc (accumulators.filterMap finishing ++
          keys.mapIdx fun i k => (k.path, .text ("$_id." ++ keyName i)))),
        single "$unset" (.text "_id")] := by
  obtain ⟨entries, hall, rfl⟩ := groupStages_eq_ok h
  have hkeys : keys.isEmpty = false := List.isEmpty_eq_false_iff.2 hk
  have hfinish : (accumulators.filterMap finishing ++ restoredKeys keys).isEmpty = false := by
    rw [List.isEmpty_eq_false_iff, restoredKeys]
    simp [hk]
  refine ⟨entries.map (·.spec), ?_, ?_⟩
  · rw [List.map_map, ← names_of_entries hall]
    rfl
  · rw [hkeys, hfinish, groupIdentity, hkeys]
    rfl

end Document

namespace Compiler.Compiles

open Compile Document

variable {plan : Plan} {q : Parsed} {raws : List String} {resolution : Resolution} {g : Grouping}

theorem stages_after_group (h : Compiles c root spec countOnly plan q raws resolution g)
    (hg : q.grouped = true) :
    ∃ before rest, plan.stages = before ++ .group g.keys g.accumulators :: rest ∧
      (∀ stage ∈ rest, stage.IsClosing ∨ ∃ f, stage = .having f) ∧
      rest.any decidesFields = true := by
  obtain ⟨shared, ending, hshared, hending, he⟩ := stages_eq_ok h.stages
  obtain ⟨keep, having, _, hhaving, rfl⟩ := sharedStages_eq_ok hshared
  rw [hg, if_pos rfl, List.append_assoc, List.append_assoc, List.singleton_append] at he
  refine ⟨_, having ++ ending, he, fun stage hs => ?_, ?_⟩
  · rcases List.mem_append.1 hs with hs | hs
    · rcases filterStage_eq_ok hhaving with ⟨_, rfl⟩ | ⟨_, f, _, rfl⟩
      · cases hs
      · exact .inr ⟨f, List.mem_singleton.1 hs⟩
    · exact .inl (hending.isClosing hs)
  · rw [List.any_append, Bool.or_eq_true]
    right
    cases hending with
    | count => rfl
    | find _ =>
      obtain ⟨names, hn⟩ := projectStages_grouped hg plan.fields g
      rw [hn]
      simp [decidesFields]

theorem documents_grouped (h : Compiles c root spec countOnly plan q raws resolution g)
    (hg : q.grouped = true) (hd : pipeline plan = .ok documents) :
    ∃ before docs after, documents = before ++ docs ++ after ∧
      groupStages g.keys g.accumulators = .ok docs ∧ ∀ d ∈ after, ∀ path, ¬Removes path d := by
  obtain ⟨parts, hparts, rfl⟩ := map_eq_ok hd
  obtain ⟨before, rest, hstages, hclosing, hdecides⟩ := h.stages_after_group hg
  have hdecided : (plan.stages.any decidesFields || plan.root.identity == "_id") = true := by
    rw [hstages, List.any_append, List.any_cons, hdecides]
    simp
  rw [if_pos hdecided, List.append_nil]
  rw [hstages] at hparts
  obtain ⟨front, _, _, hback, rfl⟩ := mapM_append_eq_ok hparts
  obtain ⟨docs, back, hdocs, hrest, rfl⟩ := mapM_cons_eq_ok hback
  refine ⟨front.flatten, docs, back.flatten, by simp, hdocs, fun d hm path => ?_⟩
  obtain ⟨ds, hds, hmem⟩ := List.mem_flatten.1 hm
  obtain ⟨stage, hs, he⟩ := exists_of_mapM hrest hds
  exact not_removes_of_closing (hclosing stage hs) he d hmem

end Compiler.Compiles

open Document in
/-- The keys of a group go into its identity and from there to their paths again. The identity is
removed, and nothing else is from there on, so that exactly those keys are lost that stand at the
identity or below it. -/
theorem Compiler.group_keys_restored {catalog : Catalog} {plan : Plan}
    (h : (⟨catalog, .document⟩ : Compiler).run root spec countOnly = .ok plan)
    (hg : .group keys accumulators ∈ plan.stages) (hk : keys ≠ []) :
    ∃ before computed after,
      Document.pipeline plan = .ok (before ++
        [single "$group"
          (doc (("_id", doc (keys.mapIdx fun i k => (keyName i, valueAt k.path))) :: computed)),
        single "$set" (doc (accumulators.filterMap finishing ++
          keys.mapIdx fun i k => (k.path, .text ("$_id." ++ keyName i)))),
        single "$unset" (.text "_id")] ++ after) ∧
      computed.map (·.1) = accumulators.map (·.name) ∧ (keys.map (·.path)).Nodup ∧
      ∀ key ∈ keys, (∃ d ∈ single "$unset" (.text "_id") :: after, Removes key.path d) ↔
        key.path = "_id" ∨ "_id.".toList <+: key.path.toList := by
  obtain ⟨q, raws, resolution, g, hc⟩ := run_eq_ok h
  obtain ⟨hgrouped, rfl, rfl⟩ := hc.group_mem_iff.1 hg
  obtain ⟨documents, hd⟩ := hc.renders_document rfl
  obtain ⟨before, docs, after, rfl, hdocs, hafter⟩ := hc.documents_grouped hgrouped hd
  obtain ⟨computed, hnames, rfl⟩ := groupStages_keyed hk hdocs
  refine ⟨before, computed, after, hd, hnames, hc.keys_nodup, fun key _ => ?_⟩
  constructor
  · rintro ⟨d, hm, hremoves⟩
    rcases List.mem_cons.1 hm with rfl | hm
    · obtain ⟨removed, he, hremoved⟩ := hremoves
      cases he
      exact hremoved.imp Eq.symm id
    · exact absurd hremoves (hafter d hm key.path)
  · intro hpath
    exact ⟨_, List.mem_cons_self, "_id", rfl, hpath.imp Eq.symm id⟩

namespace Sample

/-- An item that is identified as the documents of the store are. -/
def stamped : Entity := ⟨"item", "items", "_id", [⟨"_id", .int, ""⟩, ⟨"size", .int, ""⟩]⟩

def stampedCatalog : Catalog := ⟨[stamped], []⟩

def sizesByIdentity : QuerySpec where
  select := [⟨"_id", "key"⟩, ⟨"[Count]size", "n"⟩]
  groupBy := ["_id"]

def sizes : Accumulator := ⟨"count_size", .count, "size", .int, .int⟩

def identityField : FieldRef := { raw := "_id", location := "_id", type := .int }

def sizesByIdentityPlan : Plan where
  root := stamped
  stages := [.group [⟨"_id", .int⟩] [sizes], .project [("key", "_id"), ("n", "count_size")]]
  fields := [("_id", identityField), ("size", sizeField)]
  countOnly := false

theorem run_sizesByIdentity :
    (⟨stampedCatalog, .document⟩ : Compiler).run "item" sizesByIdentity false =
      .ok sizesByIdentityPlan := by
  let q : Compile.Parsed := ⟨sizesByIdentity, .all, .all, [⟨"key", ⟨"_id", "_id", none⟩⟩,
    ⟨"n", ⟨"[Count]size", "size", some ⟨.count, "size"⟩⟩⟩], []⟩
  have hq : Compile.read sizesByIdentity = .ok q := rfl
  have hp : q.paths = .ok ["_id", "size", "_id"] := rfl
  have hr : Resolution.resolve stampedCatalog stamped ["_id", "size", "_id"] =
      .ok ⟨[], sizesByIdentityPlan.fields⟩ := rfl
  have hg : q.grouping sizesByIdentityPlan.fields = .ok (sizesByIdentityPlan.fields,
      ⟨[⟨"_id", .int⟩], [sizes], [("n", sizes)]⟩) := rfl
  exact Compiler.run_of_steps rfl hq hp hr hg rfl

end Sample

open Document in
theorem Compiler.group_keys_restored_peopleByCity :
    (⟨Sample.catalog, .document⟩ : Compiler).run "person" Sample.peopleByCity false =
        .ok Sample.peopleByCityPlan ∧
      ∃ before computed after,
        Document.pipeline Sample.peopleByCityPlan = .ok (before ++
          [single "$group" (doc (("_id", doc [("k0", valueAt "city")]) :: computed)),
          single "$set" (doc [("countdistinct_id", sizeWithoutNull "countdistinct_id"),
            ("city", .text "$_id.k0")]),
          single "$unset" (.text "_id")] ++ after) ∧
        ∀ d ∈ single "$unset" (.text "_id") :: after, ¬Removes "city" d := by
  refine ⟨Sample.run_peopleByCity, ?_⟩
  obtain ⟨before, computed, after, hd, _, _, hremoved⟩ :=
    Compiler.group_keys_restored Sample.run_peopleByCity List.mem_cons_self (List.cons_ne_nil _ _)
  refine ⟨before, computed, after, hd, fun d hm hr => ?_⟩
  have hpath := (hremoved _ List.mem_cons_self).1 ⟨d, hm, hr⟩
  revert hpath
  decide

open Document in
/-- A key at the identity is removed as soon as it has been restored. -/
theorem Compiler.group_key_removed :
    Catalog.build [Sample.stamped] [] = .ok Sample.stampedCatalog ∧
      (⟨Sample.stampedCatalog, .document⟩ : Compiler).run "item" Sample.sizesByIdentity false =
        .ok Sample.sizesByIdentityPlan ∧
      .group [⟨"_id", .int⟩] [Sample.sizes] ∈ Sample.sizesByIdentityPlan.stages ∧
      ∃ before after, Document.pipeline Sample.sizesByIdentityPlan = .ok (before ++
          single "$set" (doc [("_id", .text "$_id.k0")]) :: after) ∧
        ∃ d ∈ after, Removes "_id" d :=
  ⟨rfl, Sample.run_sizesByIdentity, List.mem_cons_self, [_], [_, _], rfl, _, List.mem_cons_self,
    "_id", rfl, .inl rfl⟩

end NeutralQuery
