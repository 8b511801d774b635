import NeutralQuery.Proofs.Document.Matching
import NeutralQuery.Proofs.Memory.Results
import NeutralQuery.Proofs.Plan.Order

namespace NeutralQuery

mutual

/-- No document within a value has a key twice. -/
def Value.Distinct : Value → Prop
  | .document entries | .record entries => (entries.map (·.1)).Nodup ∧ EntriesDistinct entries
  | .list items => AllDistinct items
  | .criteria items | .group items => CriteriaDistinct items
  | _ => True

def EntriesDistinct : List (String × Value) → Prop
  | [] => True
  | (_, v) :: rest => v.Distinct ∧ EntriesDistinct rest

def AllDistinct : List Value → Prop
  | [] => True
  | v :: rest => v.Distinct ∧ AllDistinct rest

def CriteriaDistinct : List Criterion → Prop
  | [] => True
  | ⟨_, _, values⟩ :: rest => AllDistinct values ∧ CriteriaDistinct rest

end

theorem entriesDistinct_iff {entries : List (String × Value)} :
    EntriesDistinct entries ↔ ∀ e ∈ entries, e.2.Distinct := by
  induction entries with
  | nil => simp [EntriesDistinct]
  | cons e rest ih => rw [EntriesDistinct, ih, List.forall_mem_cons]

theorem allDistinct_iff {items : List Value} : AllDistinct items ↔ ∀ v ∈ items, v.Distinct := by
  induction items with
  | nil => simp [AllDistinct]
  | cons v rest ih => rw [AllDistinct, ih, List.forall_mem_cons]

namespace Document

@[simp] theorem distinct_document {entries : List (String × Value)} :
    (Value.document entries).Distinct ↔
      (entries.map (·.1)).Nodup ∧ ∀ e ∈ entries, e.2.Distinct := by
  rw [Value.Distinct, entriesDistinct_iff]

@[simp] theorem distinct_doc {entries : List (String × Value)} :
    (doc entries).Distinct ↔ (entries.map (·.1)).Nodup ∧ ∀ e ∈ entries, e.2.Distinct :=
  distinct_document

@[simp] theorem distinct_list {items : List Value} :
    (Value.list items).Distinct ↔ ∀ v ∈ items, v.Distinct := by
  rw [Value.Distinct, allDistinct_iff]

@[simp] theorem distinct_single : (single key v).Distinct ↔ v.Distinct := by
  simp [single]

@[simp] theorem distinct_text (s : String) : (Value.text s).Distinct := trivial

@[simp] theorem distinct_null : Value.null.Distinct := trivial

@[simp] theorem distinct_bool (b : Bool) : (Value.bool b).Distinct := trivial

@[simp] theorem distinct_ofInt (n : Int) : (Value.ofInt n).Distinct := trivial

@[simp] theorem distinct_ofInt64 (n : Int) : (Value.ofInt64 n).Distinct := trivial

@[simp] theorem distinct_valueAt (path : String) : (valueAt path).Distinct := trivial

@[simp] theorem distinct_orNull (path : String) : (orNull path).Distinct := by
  simp [orNull]

@[simp] theorem distinct_sizeWithoutNull (name : String) : (sizeWithoutNull name).Distinct := by
  simp [sizeWithoutNull]

@[simp] theorem distinct_stored {v : Value} : (stored v).Distinct ↔ v.Distinct := by
  cases v with
  | uuid u | ulid u => simp [stored, Value.Distinct]
  | _ => rfl

theorem distinct_of_hasType {v : Value} (h : v.hasType .string = true) : v.Distinct := by
  cases v with
  | text s | rawText b => trivial
  | _ => cases h

variable {p : Predicate} {ref : FieldRef} {fields : FieldTable}

/-- The literals of a predicate stand in its query, or a pattern stands there for a text. -/
theorem predicateMatch_distinct (hp : p.Converted) (h : predicateMatch ref p = .ok m) :
    m.document.Distinct ↔ ∀ v ∈ p.values, v.Distinct := by
  rw [predicateMatch] at h
  cases hop : p.operator with
  | equal | notEqual =>
    rw [hop] at h
    simp only at h
    split at h
    · next v hv =>
      cases h
      simp [Match.document, Test.document, hv]
    · cases h
      simp [Match.document, Test.document]
  | greaterThan | greaterThanOrEqual | lessThan | lessThanOrEqual =>
    rw [hop] at h
    cases h
    obtain ⟨v, hv, _⟩ := hp.single (by rw [hop]; rfl)
    simp [Match.document, Test.document, Predicate.value, hv]
  | contain | startWith | endWith | doesNotContain =>
    rw [hop] at h
    cases h
    obtain ⟨v, hv, ht⟩ := hp.text (by rw [hop]; rfl)
    simp [Match.document, Test.document, patternDocument, hv, distinct_of_hasType ht]
  | specified =>
    rw [hop] at h
    obtain ⟨b, hv⟩ := hp.specified hop
    simp only [specifiedMatch] at h
    have hvalues : ∀ v ∈ p.values, v.Distinct := by simp [hv]
    refine iff_of_true ?_ hvalues
    split at h
    · cases h
    · cases h
      simp [Match.document, Test.document]
    · split at h <;> cases h <;> simp [Match.document, clauseDocuments, Test.document]
  | or | group | other _ =>
    rw [hop] at h
    cases h

mutual

theorem ofFilter_distinct : ∀ {filter : Filter} {m : Match}, filter.Shaped Predicate.Converted →
    ofFilter fields filter = .ok m →
    (m.document.Distinct ↔ ∀ p ∈ filter.leaves, ∀ v ∈ p.values, v.Distinct)
  | .all, _, _, h => by
    cases h
    simp [Match.document, Filter.leaves]
  | .predicate p, _, hs, h => by
    rw [ofFilter, ofPredicate] at h
    split at h
    · cases h
    · rw [predicateMatch_distinct hs h, Filter.leaves, List.forall_mem_singleton]
  | .and operands, _, hs, h | .or operands, _, hs, h => by
    obtain ⟨ms, hms, rfl⟩ := map_eq_ok h
    rw [Match.document, Filter.leaves, ← ofFilters_distinct hs.2 hms]
    simp

theorem ofFilters_distinct : ∀ {filters : List Filter} {ms : List Match},
    Filter.ShapedAll Predicate.Converted filters → ofFilters fields filters = .ok ms →
    ((∀ d ∈ clauseDocuments ms, d.Distinct) ↔
      ∀ p ∈ Filter.leavesAll filters, ∀ v ∈ p.values, v.Distinct)
  | [], _, _, h => by
    cases h
    simp [clauseDocuments, Filter.leavesAll]
  | f :: fs, _, hs, h => by
    obtain ⟨m, rest, hm, hr, rfl⟩ := ofFilters_cons h
    rw [clauseDocuments, Filter.leavesAll, List.forall_mem_cons, List.forall_mem_append,
      ofFilter_distinct hs.1 hm, ofFilters_distinct hs.2 hr]

end

theorem keyName_injective : Function.Injective keyName := fun _ _ h =>
  Text.ofNat_injective ((String.append_right_inj _).1 h)

theorem restoredKeys_paths (keys : List GroupKey) :
    (restoredKeys keys).map (·.1) = keys.map (·.path) := by
  apply List.ext_getElem <;> simp [restoredKeys]

theorem distinct_groupIdentity (keys : List GroupKey) : (groupIdentity keys).Distinct := by
  rw [groupIdentity]
  split
  · trivial
  · have hnames : ((keys.mapIdx fun i k => (keyName i, valueAt k.path)).map (·.1)) =
        (List.range keys.length).map keyName := by
      apply List.ext_getElem <;> simp
    rw [distinct_doc, hnames]
    refine ⟨List.nodup_range.map keyName_injective, fun e he => ?_⟩
    obtain ⟨i, hi, rfl⟩ := List.mem_mapIdx.1 he
    trivial

/-- A set of values is turned into its size once the group is complete. -/
def finishing (acc : Accumulator) : Option (String × Value) :=
  if acc.function = .countDistinct then some (acc.name, sizeWithoutNull acc.name) else none

/-- The entry of an accumulator stands under its name. -/
structure GroupEntry.Of (acc : Accumulator) (e : GroupEntry) : Prop where
  name : e.spec.1 = acc.name
  spec : e.spec.2.Distinct
  empty : e.empty.Distinct
  finish : e.finish = finishing acc

theorem groupEntry_of (h : groupEntry acc = .ok e) : e.Of acc := by
  rw [groupEntry] at h
  cases hf : acc.function with
  | other name =>
    rw [hf] at h
    cases h
  | _ =>
    rw [hf] at h
    cases h
    constructor <;> simp [finishing, hf]

section

variable {accumulators : List Accumulator} {entries : List GroupEntry} {keys : List GroupKey}

theorem names_of_entries
    (h : List.Forall₂ (fun acc e => GroupEntry.Of acc e) accumulators entries) :
    entries.map (·.spec.1) = accumulators.map (·.name) := by
  induction h with
  | nil => rfl
  | cons hone _ ih => rw [List.map_cons, List.map_cons, hone.name, ih]

theorem finish_of_entries
    (h : List.Forall₂ (fun acc e => GroupEntry.Of acc e) accumulators entries) :
    entries.filterMap (·.finish) = accumulators.filterMap finishing := by
  induction h with
  | nil => rfl
  | cons hone _ ih => rw [List.filterMap_cons, List.filterMap_cons, hone.finish, ih]

theorem finishing_names (accumulators : List Accumulator) :
    (accumulators.filterMap finishing).map (·.1) =
      (accumulators.filter (·.function = .countDistinct)).map (·.name) := by
  induction accumulators with
  | nil => rfl
  | cons acc rest ih =>
    rw [List.filterMap_cons, List.filter_cons, finishing]
    by_cases hf : acc.function = .countDistinct <;> simp [hf, ih]

theorem groupStages_eq_ok (h : groupStages keys accumulators = .ok docs) :
    ∃ entries, List.Forall₂ (fun acc e => GroupEntry.Of acc e) accumulators entries ∧
      docs = (if keys.isEmpty then
          keylessStages (doc (("_id", groupIdentity keys) :: entries.map (·.spec)))
            (doc (entries.map fun e => (e.spec.1, e.empty)))
        else [single "$group" (doc (("_id", groupIdentity keys) :: entries.map (·.spec)))]) ++
        (if (accumulators.filterMap finishing ++ restoredKeys keys).isEmpty then []
        else [single "$set" (doc (accumulators.filterMap finishing ++ restoredKeys keys))]) ++
        [single "$unset" (.text "_id")] := by
  obtain ⟨entries, hentries, rfl⟩ := map_eq_ok h
  have hall := (forall₂_of_mapM hentries).imp fun acc e he => groupEntry_of he
  refine ⟨entries, hall, ?_⟩
  simp only [finish_of_entries hall]

theorem distinct_grouping (hn : ("_id" :: accumulators.map (·.name)).Nodup)
    (hall : List.Forall₂ (fun acc e => GroupEntry.Of acc e) accumulators entries) :
    ∀ d ∈ (if keys.isEmpty then
        keylessStages (doc (("_id", groupIdentity keys) :: entries.map (·.spec)))
          (doc (entries.map fun e => (e.spec.1, e.empty)))
      else [single "$group" (doc (("_id", groupIdentity keys) :: entries.map (·.spec)))]),
      d.Distinct := by
  have hof : ∀ e ∈ entries, e.spec.2.Distinct ∧ e.empty.Distinct := by
    intro e he
    obtain ⟨acc, _, hone⟩ := exists_left_of_forall₂ hall he
    exact ⟨hone.spec, hone.empty⟩
  have hspec : (doc (("_id", groupIdentity keys) :: entries.map (·.spec))).Distinct := by
    rw [distinct_doc, List.map_cons, List.map_map, List.forall_mem_cons]
    refine ⟨?_, distinct_groupIdentity keys, List.forall_mem_map.2 fun e he => (hof e he).1⟩
    rwa [← names_of_entries hall] at hn
  have hempty : (doc (entries.map fun e => (e.spec.1, e.empty))).Distinct := by
    rw [distinct_doc, List.map_map]
    refine ⟨?_, List.forall_mem_map.2 fun e he => (hof e he).2⟩
    rw [← names_of_entries hall] at hn
    exact hn.of_cons
  split
  · simp [keylessStages, hspec, hempty]
  · simp [hspec]

/-- What is left to do once a group is complete names the counted accumulators and the keys. -/
theorem finish_nodup (hn : (accumulators.map (·.name)).Nodup)
    (hk : (keys.map GroupKey.path).Nodup) :
    ((accumulators.filterMap finishing ++ restoredKeys keys).map (·.1)).Nodup ↔
      ∀ acc ∈ accumulators, acc.function = .countDistinct → acc.name ∉ keys.map (·.path) := by
  have hcounted : ((accumulators.filter (·.function = .countDistinct)).map (·.name)).Nodup :=
    hn.sublist (List.filter_sublist.map _)
  rw [List.map_append, finishing_names, restoredKeys_paths, List.nodup_append]
  constructor
  · intro ⟨_, _, hd⟩ acc hm hf hp
    have hc : acc ∈ accumulators.filter (·.function = .countDistinct) :=
      List.mem_filter.2 ⟨hm, decide_eq_true hf⟩
    exact hd _ (List.mem_map_of_mem hc) _ hp rfl
  · intro h
    refine ⟨hcounted, hk, fun a ha b hb he => ?_⟩
    obtain ⟨acc, hc, rfl⟩ := List.mem_map.1 ha
    obtain ⟨hm, hf⟩ := List.mem_filter.1 hc
    exact h acc hm (of_decide_eq_true hf) (he ▸ hb)

theorem distinct_finish (hn : (accumulators.map (·.name)).Nodup)
    (hk : (keys.map GroupKey.path).Nodup) :
    (∀ d ∈ (if (accumulators.filterMap finishing ++ restoredKeys keys).isEmpty then []
        else [single "$set" (doc (accumulators.filterMap finishing ++ restoredKeys keys))]),
      d.Distinct) ↔
      ∀ acc ∈ accumulators, acc.function = .countDistinct → acc.name ∉ keys.map (·.path) := by
  have hvalues : ∀ e ∈ accumulators.filterMap finishing ++ restoredKeys keys, e.2.Distinct := by
    intro e he
    rcases List.mem_append.1 he with he | he
    · obtain ⟨acc, _, hf⟩ := List.mem_filterMap.1 he
      rw [finishing] at hf
      split at hf <;> cases hf
      exact distinct_sizeWithoutNull acc.name
    · obtain ⟨i, hi, rfl⟩ := List.mem_mapIdx.1 he
      trivial
  rw [← finish_nodup hn hk]
  split
  · next he => simp [List.isEmpty_iff.1 he]
  · rw [List.forall_mem_singleton, distinct_single, distinct_doc]
    exact and_iff_left hvalues

/-- Where keys have different paths and accumulators different names, none of which is the name of
the identity, a group repeats a key exactly where it counts different values under the path of one
of its keys. -/
theorem groupStages_distinct (hn : ("_id" :: accumulators.map (·.name)).Nodup)
    (hk : (keys.map GroupKey.path).Nodup) (h : groupStages keys accumulators = .ok docs) :
    (∀ d ∈ docs, d.Distinct) ↔
      ∀ acc ∈ accumulators, acc.function = .countDistinct → acc.name ∉ keys.map (·.path) := by
  obtain ⟨entries, hall, rfl⟩ := groupStages_eq_ok h
  have hunset : ∀ d ∈ [single "$unset" (.text "_id")], d.Distinct := by simp
  rw [List.forall_mem_append, List.forall_mem_append, and_iff_left hunset,
    and_iff_right (distinct_grouping hn hall)]
  exact distinct_finish hn.of_cons hk

end

/-- The names that a stage puts beside each other in one document are different, and so are those
within its literals. -/
def Apart : Stage → Prop
  | .keep f | .having f => ∀ p ∈ f.leaves, ∀ v ∈ p.values, v.Distinct
  | .group keys accumulators =>
    ∀ acc ∈ accumulators, acc.function = .countDistinct → acc.name ∉ keys.map (·.path)
  | .sort keys => (keys.map (·.path)).Nodup
  | .project names => ("_id" :: names.map (·.1)).Nodup
  | _ => True

theorem stageDocuments_distinct (hf : ∀ f, stage.filter? = some f → f.Shaped Predicate.Converted)
    (hg : ∀ keys accumulators, stage = .group keys accumulators →
      ("_id" :: accumulators.map (·.name)).Nodup ∧ (keys.map GroupKey.path).Nodup)
    (h : stageDocuments fields stage = .ok docs) : (∀ d ∈ docs, d.Distinct) ↔ Apart stage := by
  cases stage with
  | keep f | having f =>
    obtain ⟨m, hm, rfl⟩ := map_eq_ok h
    rw [List.forall_mem_singleton, distinct_single, ofFilter_distinct (hf f rfl) hm]
    rfl
  | group keys accumulators =>
    obtain ⟨hn, hk⟩ := hg keys accumulators rfl
    exact groupStages_distinct hn hk h
  | sort keys =>
    cases h
    simp [Apart, Function.comp_def]
  | project names =>
    cases h
    have hvalues : ∀ e ∈ ("_id", Value.ofInt 0) :: names.map fun n => (n.1, orNull n.2),
        e.2.Distinct :=
      List.forall_mem_cons.2 ⟨trivial, List.forall_mem_map.2 fun n _ => distinct_orNull n.2⟩
    rw [List.forall_mem_singleton, distinct_single, distinct_doc, and_iff_left hvalues,
      List.map_cons, List.map_map]
    rfl
  | unknown kind type => cases h
  | _ =>
    cases h
    simp [Apart]

theorem distinct_iff_apart {plan : Plan}
    (hs : ∀ stage ∈ plan.stages, ∀ docs, stageDocuments plan.fields stage = .ok docs →
      ((∀ d ∈ docs, d.Distinct) ↔ Apart stage))
    (h : pipeline plan = .ok documents) :
    (∀ d ∈ documents, d.Distinct) ↔ ∀ stage ∈ plan.stages, Apart stage := by
  obtain ⟨parts, hparts, rfl⟩ := map_eq_ok h
  have htail : ∀ d ∈ (if plan.stages.any decidesFields || plan.root.identity == "_id" then []
      else [single "$unset" (.text "_id")]), d.Distinct := by
    split <;> simp
  rw [List.forall_mem_append, and_iff_left htail]
  have hrel := forall₂_of_mapM hparts
  constructor
  · intro hd stage hm
    obtain ⟨docs, hdocs, he⟩ := exists_right_of_forall₂ hrel hm
    exact (hs stage hm docs he).1 fun d hdm => hd d (List.mem_flatten.2 ⟨docs, hdocs, hdm⟩)
  · intro ha d hdm
    obtain ⟨docs, hdocs, hmem⟩ := List.mem_flatten.1 hdm
    obtain ⟨stage, hm, he⟩ := exists_left_of_forall₂ hrel hdocs
    exact (hs stage hm docs he).2 (ha stage hm) d hmem

end Document

namespace Compile

theorem addKey_nodup {keys : List GroupKey} (hk : (keys.map (·.path)).Nodup)
    (fields : FieldTable) (path : String) : ((addKey fields keys path).map (·.path)).Nodup := by
  rw [addKey]
  split
  · exact hk
  · next hn =>
    rw [List.map_append, List.map_singleton]
    refine hk.append (List.nodup_singleton _) (List.disjoint_singleton.2 fun hm => ?_)
    obtain ⟨key, hkey, he⟩ := List.mem_map.1 hm
    exact hn (List.any_eq_true.2 ⟨key, hkey, beq_iff_eq.2 he⟩)

theorem foldl_addKey_nodup (fields : FieldTable) (paths : List String) {keys : List GroupKey}
    (hk : (keys.map (·.path)).Nodup) :
    ((paths.foldl (addKey fields) keys).map (·.path)).Nodup := by
  induction paths generalizing keys with
  | nil => exact hk
  | cons path rest ih => exact ih (addKey_nodup hk fields path)

end Compile

theorem Accumulator.Formed.name_ne {acc : Accumulator} (h : acc.Formed) : acc.name ≠ "_id" := by
  have hletter : ∀ f ∈ AggregateFunction.known, "_id".toList.head? ≠ f.name.toList.head? := by
    decide
  obtain ⟨f, hf, he⟩ := h.head_eq
  intro hname
  rw [hname] at he
  exact hletter f hf he

namespace Compiler.Compiles

open Compile

variable {plan : Plan} {q : Parsed} {raws : List String} {resolution : Resolution} {g : Grouping}

theorem keys_nodup (h : Compiles c root spec countOnly plan q raws resolution g) :
    (g.keys.map (·.path)).Nodup := by
  rcases grouping_eq_ok h.grouping with ⟨_, _, rfl⟩ | ⟨_, selected, hs, ha⟩
  · exact List.nodup_nil
  · obtain ⟨hsound, hext⟩ := addSelected_sound q.selection (.ofKeys _) hs
    rw [(addHaving_sound q.havingRefs hsound ha).2.1.keys, hext.keys]
    exact foldl_addKey_nodup _ _ List.nodup_nil

theorem names_nodup (h : Compiles c root spec countOnly plan q raws resolution g) :
    ("_id" :: g.accumulators.map (·.name)).Nodup := by
  refine List.nodup_cons.2 ⟨fun hm => ?_, h.sound.nodup⟩
  obtain ⟨acc, hacc, he⟩ := List.mem_map.1 hm
  exact (h.formed acc hacc).name_ne he

theorem renders_document (h : Compiles c root spec countOnly plan q raws resolution g)
    (hc : c.capabilities = .all backend) : ∃ documents, Document.pipeline plan = .ok documents := by
  refine Document.pipeline_of_accumulators ?_ (h.admitted hc) h.not_unknown
  intro keys accumulators hm
  obtain ⟨_, _, rfl⟩ := h.group_mem_iff.1 hm
  exact h.grouping_placed.2.accumulators

theorem documents_distinct (h : Compiles c root spec countOnly plan q raws resolution g)
    (hd : Document.pipeline plan = .ok documents) :
    (∀ d ∈ documents, d.Distinct) ↔ ∀ stage ∈ plan.stages, Document.Apart stage := by
  refine Document.distinct_iff_apart (fun stage hs docs hdocs => ?_) hd
  refine Document.stageDocuments_distinct (fun f hf => h.filter_converted hs hf) ?_ hdocs
  rintro keys accumulators rfl
  obtain ⟨_, rfl, rfl⟩ := h.group_mem_iff.1 hs
  exact ⟨h.names_nodup, h.keys_nodup⟩

theorem project_mem_iff (h : Compiles c root spec countOnly plan q raws resolution g) :
    .project names ∈ plan.stages ↔
      countOnly = false ∧ .project names ∈ projectStages q plan.fields g := by
  obtain ⟨shared, ending, hshared, hending, he⟩ := stages_eq_ok h.stages
  have hnone : .project names ∉ shared := by
    obtain ⟨keep, having, hk, hh, rfl⟩ := sharedStages_eq_ok hshared
    simp only [List.mem_append, not_or]
    refine ⟨⟨⟨⟨fun hm => isJoining_of_mem hm, ?_⟩, ?_⟩, ?_⟩, ?_⟩
    · rcases filterStage_eq_ok hk with ⟨_, rfl⟩ | ⟨_, _, _, rfl⟩ <;> simp
    · split <;> simp
    · split <;> simp
    · rcases filterStage_eq_ok hh with ⟨_, rfl⟩ | ⟨_, _, _, rfl⟩ <;> simp
  rw [he, List.mem_append, or_iff_right hnone]
  cases hending with
  | count => simp
  | @find sort hsort =>
    have hsorted : .project names ∉ sort := by
      cases slot_sortStages hsort with
      | filled _ hs =>
        obtain ⟨keys, rfl⟩ := hs
        simp
      | empty => simp
    have hpaged : .project names ∉ pageStages q.spec.page := by
      rw [pageStages]
      split
      · simp
      · dsimp only
        split <;> simp
    simp [hsorted, hpaged]

/-- The names of a selection are different from each other. Without one the names are those of the
keys and of the accumulators. -/
theorem project_nodup_iff (h : Compiles c root spec countOnly plan q raws resolution g)
    (hp : .project names ∈ projectStages q plan.fields g) :
    (names.map (·.1)).Nodup ↔
      (spec.select = [] → ∀ acc ∈ g.accumulators, acc.name ∉ g.keys.map (·.path)) := by
  have hreads := read_eq_ok h.read
  rw [← hreads.selection_eq_nil]
  rw [projectStages] at hp
  split at hp
  · next hs =>
    cases List.mem_singleton.1 hp
    have hselected : q.selection ≠ [] := by simpa using hs
    rw [List.map_map]
    exact iff_of_true (readSelection_eq_ok hreads.selection).2.1 fun hn => absurd hn hselected
  split at hp
  · next hs _ =>
    cases List.mem_singleton.1 hp
    have hnone : q.selection = [] := by simpa using hs
    have hpaths : (g.keys.map fun k => (k.path, k.path)).map (·.1) = g.keys.map (·.path) := by
      rw [List.map_map]
      rfl
    have hnames : (g.accumulators.map fun a => (a.name, a.name)).map (·.1) =
        g.accumulators.map (·.name) := by
      rw [List.map_map]
      rfl
    rw [List.map_append, hpaths, hnames, List.nodup_append]
    constructor
    · rintro ⟨_, _, hd⟩ _ acc hacc hm
      exact hd _ hm _ (List.mem_map_of_mem hacc) rfl
    · intro hd
      refine ⟨h.keys_nodup, h.sound.nodup, fun a ha b hb he => ?_⟩
      obtain ⟨acc, hacc, rfl⟩ := List.mem_map.1 hb
      exact hd hnone acc hacc (he ▸ ha)
  · cases hp

end Compiler.Compiles

open Compile in
/-- The documents of a pipeline have no key twice exactly where no path is sorted by twice, no
output is named like the identity, no accumulator that is stored beside the keys of its group has
the path of one of them for its name, and the literals of the query have no key twice either. -/
theorem Compiler.pipeline_distinct {catalog : Catalog} {plan : Plan}
    (h : (⟨catalog, .document⟩ : Compiler).run root spec countOnly = .ok plan) :
    ∃ documents, Document.pipeline plan = .ok documents ∧
      ((∀ d ∈ documents, d.Distinct) ↔
        (∀ keys, .sort keys ∈ plan.stages → (keys.map (·.path)).Nodup) ∧
        (∀ names, .project names ∈ plan.stages → "_id" ∉ names.map (·.1)) ∧
        (∀ keys accumulators, .group keys accumulators ∈ plan.stages → ∀ acc ∈ accumulators,
          acc.function = .countDistinct ∨ spec.select = [] ∧ countOnly = false →
          acc.name ∉ keys.map (·.path)) ∧
        ∀ stage ∈ plan.stages, ∀ f, stage.filter? = some f →
          ∀ p ∈ f.leaves, ∀ v ∈ p.values, v.Distinct) := by
  obtain ⟨q, raws, resolution, g, hc⟩ := run_eq_ok h
  obtain ⟨documents, hd⟩ := hc.renders_document rfl
  refine ⟨documents, hd, ?_⟩
  rw [hc.documents_distinct hd]
  constructor
  · intro ha
    refine ⟨fun keys hm => ha _ hm, fun names hm => (List.nodup_cons.1 (ha _ hm)).1, ?_, ?_⟩
    · rintro keys accumulators hm acc hacc (hf | ⟨hs, rfl⟩)
      · exact ha _ hm acc hacc hf
      · obtain ⟨hg, rfl, rfl⟩ := hc.group_mem_iff.1 hm
        obtain ⟨names, hp⟩ := projectStages_grouped hg plan.fields g
        have hmem : .project names ∈ projectStages q plan.fields g := hp ▸ List.mem_cons_self
        have hnodup := (List.nodup_cons.1 (ha _ (hc.project_mem_iff.2 ⟨rfl, hmem⟩))).2
        exact (hc.project_nodup_iff hmem).1 hnodup hs acc hacc
    · intro stage hm f hf
      rcases Stage.filter?_eq_some hf with rfl | rfl
      · exact ha _ hm
      · exact ha _ hm
  · rintro ⟨hsort, hproject, hgroup, hliteral⟩ stage hm
    cases stage with
    | keep f | having f => exact hliteral _ hm f rfl
    | group keys accumulators =>
      exact fun acc hacc hf => hgroup keys accumulators hm acc hacc (.inl hf)
    | sort keys => exact hsort keys hm
    | project names =>
      obtain ⟨rfl, hp⟩ := hc.project_mem_iff.1 hm
      refine List.nodup_cons.2 ⟨hproject names hm, (hc.project_nodup_iff hp).2 fun hs => ?_⟩
      intro acc hacc
      have hg : q.grouped = true := by
        rcases grouping_eq_ok hc.grouping with ⟨_, _, rfl⟩ | ⟨hg, _⟩
        · cases hacc
        · exact hg
      exact hgroup _ _ (hc.group_mem_iff.2 ⟨hg, rfl, rfl⟩) acc hacc (.inr ⟨hs, rfl⟩)
    | _ => trivial

namespace Sample

/-- How many people there are in each city, the cities in falling order. -/
def peopleByCity : QuerySpec where
  select := [⟨"city", "city"⟩, ⟨"[CountDistinct]id", "people"⟩]
  groupBy := ["city"]
  orderBy := [⟨"city", .descending⟩]

def differentPeople : Accumulator := ⟨"countdistinct_id", .countDistinct, "id", .int, .int⟩

def peopleByCityPlan : Plan where
  root := person
  stages := [.group [⟨"city", .string⟩] [differentPeople], .sort [⟨"city", .descending⟩],
    .project [("city", "city"), ("people", "countdistinct_id")]]
  fields := [("city", cityField), ("id", idField)]
  countOnly := false

theorem run_peopleByCity :
    (⟨catalog, .document⟩ : Compiler).run "person" peopleByCity false = .ok peopleByCityPlan := by
  let q : Compile.Parsed := ⟨peopleByCity, .all, .all, [⟨"city", ⟨"city", "city", none⟩⟩,
    ⟨"people", ⟨"[CountDistinct]id", "id", some ⟨.countDistinct, "id"⟩⟩⟩], []⟩
  have hq : Compile.read peopleByCity = .ok q := rfl
  have hp : q.paths = .ok ["city", "id", "city", "city"] := rfl
  have hr : Resolution.resolve catalog person ["city", "id", "city", "city"] =
      .ok ⟨[], peopleByCityPlan.fields⟩ := rfl
  have hg : q.grouping peopleByCityPlan.fields = .ok (peopleByCityPlan.fields,
      ⟨[⟨"city", .string⟩], [differentPeople], [("people", differentPeople)]⟩) := rfl
  exact Compiler.run_of_steps rfl hq hp hr hg rfl

/-- Sorted by one path in both directions. -/
def sortedTwice : QuerySpec where
  select := [⟨"city", "city"⟩]
  orderBy := [⟨"city", .ascending⟩, ⟨"city", .descending⟩]

def sortedTwicePlan : Plan where
  root := person
  stages := [.sort [⟨"city", .ascending⟩, ⟨"city", .descending⟩], .project [("city", "city")]]
  fields := [("city", cityField)]
  countOnly := false

theorem run_sortedTwice :
    (⟨catalog, .document⟩ : Compiler).run "person" sortedTwice false = .ok sortedTwicePlan := by
  let q : Compile.Parsed := ⟨sortedTwice, .all, .all, [⟨"city", ⟨"city", "city", none⟩⟩], []⟩
  have hq : Compile.read sortedTwice = .ok q := rfl
  have hp : q.paths = .ok ["city", "city", "city"] := rfl
  have hr : Resolution.resolve catalog person ["city", "city", "city"] =
      .ok ⟨[], sortedTwicePlan.fields⟩ := rfl
  exact Compiler.run_of_steps rfl hq hp hr rfl rfl

end Sample

theorem Compiler.pipeline_distinct_peopleByCity :
    (⟨Sample.catalog, .document⟩ : Compiler).run "person" Sample.peopleByCity false =
        .ok Sample.peopleByCityPlan ∧
      ∃ documents, Document.pipeline Sample.peopleByCityPlan = .ok documents ∧
        ∀ d ∈ documents, d.Distinct := by
  obtain ⟨documents, hd, hiff⟩ := Compiler.pipeline_distinct Sample.run_peopleByCity
  refine ⟨Sample.run_peopleByCity, documents, hd, hiff.2 ⟨?_, ?_, ?_, ?_⟩⟩
  · simp [Sample.peopleByCityPlan]
  · simp [Sample.peopleByCityPlan]
  · simp [Sample.peopleByCityPlan, Sample.differentPeople]
  · simp [Sample.peopleByCityPlan, Stage.filter?]

/-- Nothing keeps an order from naming a path twice. -/
theorem Compiler.pipeline_sorted_twice :
    (⟨Sample.catalog, .document⟩ : Compiler).run "person" Sample.sortedTwice false =
        .ok Sample.sortedTwicePlan ∧
      ∃ documents, Document.pipeline Sample.sortedTwicePlan = .ok documents ∧
        ¬∀ d ∈ documents, d.Distinct := by
  refine ⟨Sample.run_sortedTwice, _, rfl, fun hd => ?_⟩
  have hsort := hd _ List.mem_cons_self
  simp at hsort

end NeutralQuery
