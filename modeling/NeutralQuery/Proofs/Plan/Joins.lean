import NeutralQuery.Proofs.Plan.Stages

namespace NeutralQuery

namespace Lookup

/-- A join lands at its path; that of a single record comes by way of a name without dots. -/
def Formed (l : Lookup) : Prop :=
  if l.edge.multiplicity = .one then Text.Solid '.' l.output else l.output = l.path

/-- A join that lands outside the record at a key. -/
def Outside (p : String) (l : Lookup) : Prop := (Text.split '.' l.path).head? ≠ some p

/-- A join that lands within the record at a key. -/
def Within (p : String) (l : Lookup) : Prop := ∃ s rest, Text.split '.' l.path = p :: s :: rest

theorem Outside.not_within (h : Outside p l) : ¬l.Within p := by
  rintro ⟨s, rest, hs⟩
  rw [Outside, hs] at h
  exact h rfl

end Lookup

namespace Resolution

variable {catalog : Catalog}

theorem lookupFor_formed (edge : Edge) (target : Entity) (path parent : String) :
    (lookupFor edge target path parent).Formed := by
  rw [Lookup.Formed]
  by_cases hone : edge.multiplicity = .one
  · have hsolid : Text.Solid '.' (lookupFor edge target path parent).output := by
      simp only [lookupFor, if_pos hone]
      refine Text.Solid.append (by decide) ?_
      rw [Text.Solid, Text.mapChars, String.toList_ofList]
      intro hm
      obtain ⟨c, _, hc⟩ := List.mem_flatMap.1 hm
      split at hc
      · exact absurd hc (by decide)
      · next hn => exact hn (List.mem_singleton.1 hc).symm
    exact (if_pos hone).symm ▸ hsolid
  · have hsame : (lookupFor edge target path parent).output = path := if_neg hone
    exact (if_neg hone).symm ▸ hsame

def Leads (catalog : Catalog) (entity : Entity) (segment : String) : Prop :=
  (∃ edge, catalog.reference? entity.name segment = some edge) ∨
    ∃ field, entity.field? segment = some field ∧ field.embedded ≠ ""

theorem Walks.lands (h : Walks catalog entity before segments type joins) (hl : l ∈ joins) :
    l.Formed ∧ ∃ segment rest, l.path = joinPath (before ++ segment :: rest) ∧
      segment :: rest <+: segments ∧ Leads catalog entity segment := by
  induction h with
  | nowhere => cases hl
  | reference hr ht =>
    cases List.mem_singleton.1 hl
    exact ⟨lookupFor_formed _ _ _ _, _, [], rfl, List.prefix_refl _, .inl ⟨_, hr⟩⟩
  | through hr ht hn h ih =>
    rcases List.mem_cons.1 hl with rfl | hl
    · exact ⟨lookupFor_formed _ _ _ _, _, [], rfl,
        List.cons_prefix_cons.2 ⟨rfl, List.nil_prefix⟩, .inl ⟨_, hr⟩⟩
    · obtain ⟨hf, segment, rest, hp, hpre, _⟩ := ih hl
      rw [List.append_assoc] at hp
      exact ⟨hf, _, _, hp, List.cons_prefix_cons.2 ⟨rfl, hpre⟩, .inl ⟨_, hr⟩⟩
  | field => cases hl
  | embedded hr hf he ht hn h ih =>
    obtain ⟨hformed, segment, rest, hp, hpre, _⟩ := ih hl
    rw [List.append_assoc] at hp
    exact ⟨hformed, _, _, hp, List.cons_prefix_cons.2 ⟨rfl, hpre⟩, .inr ⟨_, hf, he⟩⟩
  | free => cases hl

theorem split_joinPath (hs : ∀ segment ∈ segments, Text.Solid '.' segment)
    (hp : path = joinPath (first :: rest)) (hpre : first :: rest <+: segments) :
    Text.split '.' path = first :: rest := by
  rw [hp, joinPath, Text.split_join (List.cons_ne_nil first rest)]
  exact fun segment hm => hs segment (hpre.subset hm)

theorem Walks.outside (h : Walks catalog entity [] segments type joins)
    (hs : ∀ segment ∈ segments, Text.Solid '.' segment) (hn : segments.head? ≠ some p)
    (hl : l ∈ joins) : l.Outside p := by
  obtain ⟨_, segment, rest, hp, hpre, _⟩ := h.lands hl
  rw [Lookup.Outside, split_joinPath hs hp hpre]
  obtain ⟨more, rfl⟩ := hpre
  exact hn

/-- A join that is reached through a reference of the root. -/
def Inner (catalog : Catalog) (target : Entity) (p : String) (l : Lookup) : Prop :=
  ∃ s more, Text.split '.' l.path = p :: s :: more ∧ Leads catalog target s

theorem Walks.reference_cons (h : Walks catalog root [] (p :: rest) type joins)
    (hs : ∀ segment ∈ p :: rest, Text.Solid '.' segment)
    (hr : catalog.reference? root.name p = some edge)
    (ht : catalog.entity? edge.target = some target) :
    ∃ inner, joins = lookupFor edge target p "" :: inner ∧
      ∀ l ∈ inner, Inner catalog target p l := by
  have hpath : joinPath ([] ++ [p]) = p := String.ofList_toList
  cases h with
  | reference hr' ht' =>
    cases hr.symm.trans hr'
    cases ht.symm.trans ht'
    rw [hpath]
    exact ⟨[], rfl, fun _ hl => nomatch hl⟩
  | through hr' ht' hn hw =>
    cases hr.symm.trans hr'
    cases ht.symm.trans ht'
    rw [hpath]
    refine ⟨_, rfl, fun l hl => ?_⟩
    obtain ⟨_, s, more, hp, hpre, hleads⟩ := hw.lands hl
    refine ⟨s, more, ?_, hleads⟩
    exact split_joinPath hs hp (List.cons_prefix_cons.2 ⟨rfl, hpre⟩)
  | field hr' => cases hr.symm.trans hr'
  | embedded hr' => cases hr.symm.trans hr'
  | free hr' => cases hr.symm.trans hr'

/-- Joins with that of a reference of the root among them: no join before it lands within it, and
those after it that do are reached through it. -/
def Arranged (catalog : Catalog) (target : Entity) (own : Lookup) (joins : List Lookup) : Prop :=
  ∃ before after, joins = before ++ own :: after ∧ (∀ l ∈ before, l.Outside own.path) ∧
    ∀ l ∈ after, l.Outside own.path ∨ Inner catalog target own.path l

section

variable {target : Entity} {own l : Lookup} {joins more : List Lookup}

theorem mem_addLookup (h : l ∈ addLookup joins k) : l ∈ joins ∨ l = k := by
  rw [addLookup] at h
  split at h
  · exact .inl h
  · exact (List.mem_append.1 h).imp_right List.mem_singleton.1

theorem mem_foldl_addLookup (h : l ∈ more.foldl addLookup joins) : l ∈ joins ∨ l ∈ more := by
  induction more generalizing joins with
  | nil => exact .inl h
  | cons k more ih =>
    rcases ih h with h | h
    · rcases mem_addLookup h with h | rfl
      · exact .inl h
      · exact .inr List.mem_cons_self
    · exact .inr (List.mem_cons_of_mem k h)

theorem Arranged.addLookup (h : Arranged catalog target own joins)
    (hl : l.Outside own.path ∨ Inner catalog target own.path l) :
    Arranged catalog target own (addLookup joins l) := by
  obtain ⟨before, after, rfl, hbefore, hafter⟩ := h
  rw [Resolution.addLookup]
  split
  · exact ⟨before, after, rfl, hbefore, hafter⟩
  · refine ⟨before, after ++ [l], by rw [List.append_assoc, List.cons_append], hbefore, ?_⟩
    intro k hk
    rcases List.mem_append.1 hk with hk | hk
    · exact hafter k hk
    · exact List.mem_singleton.1 hk ▸ hl

theorem Arranged.foldl (h : Arranged catalog target own joins)
    (hm : ∀ l ∈ more, l.Outside own.path ∨ Inner catalog target own.path l) :
    Arranged catalog target own (more.foldl Resolution.addLookup joins) := by
  induction more generalizing joins with
  | nil => exact h
  | cons l more ih =>
    exact ih (h.addLookup (hm l List.mem_cons_self)) fun k hk => hm k (List.mem_cons_of_mem l hk)

theorem arranged_addLookup_own (hs : Text.Solid '.' own.path)
    (h : (∀ l ∈ joins, l.Outside own.path) ∨ Arranged catalog target own joins) :
    Arranged catalog target own (addLookup joins own) := by
  rw [addLookup]
  rcases h with h | ⟨before, after, rfl, hbefore, hafter⟩
  · have hnone : joins.any (·.path == own.path) = false := by
      refine List.any_eq_false.2 fun l hl he => h l hl ?_
      rw [beq_iff_eq.1 he, Text.split_of_solid hs]
      rfl
    rw [hnone]
    exact ⟨joins, [], rfl, h, fun _ hl => nomatch hl⟩
  · have hsome : (before ++ own :: after).any (·.path == own.path) = true :=
      List.any_eq_true.2 ⟨own, List.mem_append_right _ List.mem_cons_self, beq_self_eq_true _⟩
    rw [hsome]
    exact ⟨before, after, rfl, hbefore, hafter⟩

end

section

variable {root target : Entity} {edge : Edge} {p : String} {r resolution : Resolution}
  (hr : catalog.reference? root.name p = some edge)
  (ht : catalog.entity? edge.target = some target)
include hr ht

theorem add_arranged (hq : FieldPath.parse q.raw = .ok q)
    (ho : ofPath catalog root q = .ok (ref, joins)) (hp : q.segments.head? = some p)
    (h : (∀ l ∈ r.lookups, l.Outside p) ∨
      Arranged catalog target (lookupFor edge target p "") r.lookups) :
    Arranged catalog target (lookupFor edge target p "") (r.add ref joins).lookups := by
  obtain ⟨⟨type, walked⟩, hw, he⟩ := map_eq_ok ho
  cases he
  have hsolid := (FieldPath.parse_segments hq).2
  obtain ⟨rest, hrest⟩ := List.head?_eq_some_iff.1 hp
  have hwalks := walks_of_walk hw
  rw [hrest] at hsolid hwalks
  obtain ⟨inner, rfl, hinner⟩ := hwalks.reference_cons hsolid hr ht
  have hown : Arranged catalog target (lookupFor edge target p "")
      (addLookup r.lookups (lookupFor edge target p "")) :=
    arranged_addLookup_own (hsolid p List.mem_cons_self) h
  exact hown.foldl fun l hl => .inr (hinner l hl)

omit hr ht in
theorem outside_of_ofPath (hq : FieldPath.parse q.raw = .ok q)
    (ho : ofPath catalog root q = .ok (ref, joins)) (hp : q.segments.head? ≠ some p)
    (hl : l ∈ joins) : l.Outside p := by
  obtain ⟨⟨type, walked⟩, hw, he⟩ := map_eq_ok ho
  cases he
  exact (walks_of_walk hw).outside (FieldPath.parse_segments hq).2 hp hl

theorem addPaths_arranged (paths : List FieldPath)
    (hparse : ∀ q ∈ paths, FieldPath.parse q.raw = .ok q)
    (h : addPaths catalog root r paths = .ok resolution)
    (hinv : (∀ l ∈ r.lookups, l.Outside p) ∨
      Arranged catalog target (lookupFor edge target p "") r.lookups)
    (hm : (∃ q ∈ paths, q.segments.head? = some p) ∨
      Arranged catalog target (lookupFor edge target p "") r.lookups) :
    Arranged catalog target (lookupFor edge target p "") resolution.lookups := by
  induction paths generalizing r with
  | nil =>
    cases h
    rcases hm with ⟨q, hq, _⟩ | hm
    · cases hq
    · exact hm
  | cons q paths ih =>
    rw [addPaths] at h
    split at h
    · cases h
    next ref joins ho =>
      have hrest := fun q' hq' => hparse q' (List.mem_cons_of_mem q hq')
      have hq := hparse q List.mem_cons_self
      -- The first path through the reference puts its join behind joins that all land elsewhere.
      by_cases hp : q.segments.head? = some p
      · have hadd := add_arranged hr ht hq ho hp hinv
        exact ih hrest h (.inr hadd) (.inr hadd)
      · have hout := fun l (hl : l ∈ joins) => outside_of_ofPath hq ho hp hl
        have hkeep (ha : Arranged catalog target (lookupFor edge target p "") r.lookups) :
            Arranged catalog target (lookupFor edge target p "") (r.add ref joins).lookups :=
          ha.foldl fun l hl => .inl (hout l hl)
        refine ih hrest h ?_ ?_
        · refine hinv.imp (fun hall l hl => ?_) hkeep
          exact (mem_foldl_addLookup hl).elim (hall l) (hout l)
        · rcases hm with ⟨q', hq', hhead⟩ | hm
          · rcases List.mem_cons.1 hq' with rfl | hq'
            · exact absurd hhead hp
            · exact .inl ⟨q', hq', hhead⟩
          · exact .inr (hkeep hm)

theorem resolve_arranged (h : resolve catalog root raws = .ok resolution) (hm : raw ∈ raws)
    (hp : FieldPath.parse raw = .ok path) (hhead : path.segments.head? = some p) :
    Arranged catalog target (lookupFor edge target p "") resolution.lookups := by
  obtain ⟨paths, hpaths, hparse, hadd⟩ := resolve_eq_ok h
  obtain ⟨q, hq, hpq⟩ := exists_mem_of_mapM hpaths (List.mem_eraseDups.2 hm)
  cases hp.symm.trans hpq
  exact addPaths_arranged hr ht (byLength paths) hparse hadd (.inl fun _ hl => nomatch hl)
    (.inl ⟨path, mem_byLength.2 hq, hhead⟩)

end

theorem addPaths_formed (paths : List FieldPath)
    (h : addPaths catalog root r paths = .ok resolution) (hr : ∀ l ∈ r.lookups, l.Formed) :
    ∀ l ∈ resolution.lookups, l.Formed := by
  induction paths generalizing r with
  | nil =>
    cases h
    exact hr
  | cons q paths ih =>
    rw [addPaths] at h
    split at h
    · cases h
    next ref joins ho =>
      refine ih h fun l hl => ?_
      obtain ⟨⟨type, walked⟩, hw, he⟩ := map_eq_ok ho
      cases he
      rcases mem_foldl_addLookup hl with hl | hl
      · exact hr l hl
      · exact ((walks_of_walk hw).lands hl).1

theorem resolve_formed (h : resolve catalog root raws = .ok resolution) :
    ∀ l ∈ resolution.lookups, l.Formed := by
  obtain ⟨paths, _, _, hadd⟩ := resolve_eq_ok h
  exact addPaths_formed (byLength paths) hadd fun _ hl => nomatch hl

end Resolution

/-- The join that a stage makes. -/
def Stage.join? : Stage → Option Lookup
  | .lookup l => some l
  | _ => none

theorem Plan.lookups_eq (plan : Plan) : plan.lookups = plan.stages.filterMap Stage.join? := rfl

namespace Compile

variable {caps : Capabilities} {fields : FieldTable} {q : Parsed} {g : Grouping}

theorem filterMap_lookupStages (lookups : List Lookup) :
    (lookups.flatMap lookupStages).filterMap Stage.join? = lookups := by
  induction lookups with
  | nil => rfl
  | cons l lookups ih =>
    rw [List.flatMap_cons, List.filterMap_append, ih, lookupStages]
    split <;> rfl

theorem filterMap_filterStage {stage : Filter → Stage} (hs : ∀ f, (stage f).join? = none)
    (h : filterStage caps fields stage f = .ok steps) : steps.filterMap Stage.join? = [] := by
  rcases filterStage_eq_ok h with ⟨_, rfl⟩ | ⟨_, t, _, rfl⟩
  · rfl
  · rw [List.filterMap_cons_none (hs t)]
    rfl

theorem filterMap_ending (h : Ending q fields g countOnly ending) :
    ending.filterMap Stage.join? = [] := by
  rw [List.filterMap_eq_nil_iff]
  intro stage hs
  have hclosing := h.isClosing hs
  cases stage with
  | lookup l => cases hclosing
  | _ => rfl

end Compile

namespace Compiler.Compiles

open Compile

variable {q : Parsed} {raws : List String} {resolution : Resolution} {g : Grouping}

theorem stages_joins (h : Compiles c root spec countOnly plan q raws resolution g) :
    plan.lookups = resolution.lookups ∧ ∃ keep rest,
      filterStage c.capabilities plan.fields .keep q.keep = .ok keep ∧
      plan.stages = plan.lookups.flatMap lookupStages ++ (keep ++ rest) := by
  obtain ⟨shared, ending, hshared, hending, he⟩ := stages_eq_ok h.stages
  obtain ⟨keep, having, hkeep, hhaving, rfl⟩ := sharedStages_eq_ok hshared
  have hlookups : plan.lookups = resolution.lookups := by
    rw [Plan.lookups_eq, he]
    simp only [List.filterMap_append, filterMap_lookupStages,
      filterMap_filterStage (fun _ => rfl) hkeep, filterMap_filterStage (fun _ => rfl) hhaving,
      filterMap_ending hending]
    split <;> split <;> simp [Stage.join?]
  refine ⟨hlookups, keep, (if q.spec.distinct then [.distinct plan.root.identity] else []) ++
    (if q.grouped then [.group g.keys g.accumulators] else []) ++ having ++ ending, hkeep, ?_⟩
  rw [hlookups, he]
  simp only [List.append_assoc]

end Compiler.Compiles

end NeutralQuery
