import Mathlib.Data.List.Nodup
import Mathlib.Data.List.Perm.Subperm
import NeutralQuery.Proofs.Plan.Stages
import NeutralQuery.Proofs.Row.Places

namespace NeutralQuery

theorem Text.ofNat_injective : Function.Injective Text.ofNat := by
  intro a b h
  have hd : Nat.toDigits 10 a = Nat.toDigits 10 b := String.ofList_injective h
  rw [← Nat.ofDigitChars_ten_toDigits (n := a), hd, Nat.ofDigitChars_ten_toDigits]

theorem Text.solid_ofNat (n : Nat) : Text.Solid '.' (Text.ofNat n) := by
  rw [Text.Solid, Text.ofNat, String.toList_ofList]
  intro hm
  have hdigit := Nat.isDigit_of_mem_toDigits (by decide) (by decide) hm
  revert hdigit
  decide

theorem Aggregate.name_solid {a : Aggregate} (h : a.resultType ref = .ok type) :
    Text.Solid '.' a.name := by
  have hf : Text.Solid '.' a.function.name := by
    cases hfun : a.function with
    | other name =>
      rw [Aggregate.resultType, hfun] at h
      cases h
    | _ => decide
  refine (hf.append (by decide)).append ?_
  rw [Text.Solid, Text.mapChars, String.toList_ofList]
  intro hm
  obtain ⟨c, _, hc⟩ := List.mem_flatMap.1 hm
  split at hc
  · exact absurd hc (by decide)
  · next hn => exact hn (.inl (List.mem_singleton.1 hc).symm)

namespace Accumulators

theorem candidates_nodup (base : String) (count : Nat) : (candidates base count).Nodup := by
  refine List.nodup_cons.2 ⟨fun hm => ?_, ?_⟩
  · obtain ⟨i, _, hi⟩ := List.mem_map.1 hm
    have hl := congrArg String.length hi
    simp only [String.length_append] at hl
    have hone : "_".length = 1 := rfl
    omega
  · refine List.Nodup.map (fun i j h => ?_) List.nodup_range
    have ht : Text.ofNat (i + 2) = Text.ofNat (j + 2) := (String.append_right_inj _).1 h
    exact Nat.add_right_cancel (Text.ofNat_injective ht)

theorem length_candidates (base : String) (count : Nat) :
    (candidates base count).length = count + 1 := by
  rw [candidates, List.length_cons, List.length_map, List.length_range]

/-- There are more candidates than names taken, so one of them is free. -/
theorem freeName_mem (base : String) (taken : List String) :
    freeName base taken ∈ candidates base taken.length ∧ freeName base taken ∉ taken := by
  rw [freeName]
  cases hf : (candidates base taken.length).find? fun name => !taken.contains name with
  | some name =>
    have hm := List.mem_of_find?_eq_some hf
    have hn := List.find?_some hf
    exact ⟨hm, by simpa using hn⟩
  | none =>
    have hs : candidates base taken.length ⊆ taken := by
      intro name hm
      have hn := List.find?_eq_none.1 hf name hm
      simpa using hn
    have hl := (candidates_nodup base taken.length).subperm hs |>.length_le
    rw [length_candidates] at hl
    omega

theorem find?_eq_some (h : find? items function location = some acc) :
    acc ∈ items ∧ acc.function = function ∧ acc.operand = location := by
  have hp := List.find?_some h
  simp only [Bool.and_eq_true, beq_iff_eq] at hp
  exact ⟨List.mem_of_find?_eq_some h, hp⟩

/-- An accumulator is known already or goes behind all others under a free name. -/
theorem add_eq_ok {items items' : List Accumulator} (h : add items a operand = .ok (acc, items')) :
    (find? items a.function operand.location = some acc ∧ items' = items) ∨
      ∃ type, a.resultType operand = .ok type ∧ items' = items ++ [acc] ∧
        acc = ⟨freeName a.name (items.map (·.name)), a.function, operand.location, operand.type,
          type⟩ := by
  rw [add] at h
  split at h
  · next known hk =>
    cases h
    exact .inl ⟨hk, rfl⟩
  · obtain ⟨type, ht, he⟩ := map_eq_ok h
    cases he
    exact .inr ⟨type, ht, rfl, rfl⟩

theorem solid_of_mem_candidates (hb : Text.Solid '.' base) (hm : name ∈ candidates base count) :
    Text.Solid '.' name := by
  rcases List.mem_cons.1 hm with rfl | hm
  · exact hb
  · obtain ⟨i, _, rfl⟩ := List.mem_map.1 hm
    refine Text.Solid.append (Text.Solid.append hb (by decide)) ?_
    exact Text.solid_ofNat _

section

variable {items items' : List Accumulator} (h : add items a operand = .ok (acc, items'))
include h

theorem add_mem : acc ∈ items' := by
  rcases add_eq_ok h with ⟨hk, rfl⟩ | ⟨_, _, rfl, _⟩
  · exact (find?_eq_some hk).1
  · exact List.mem_append_right _ List.mem_cons_self

theorem add_prefix : items <+: items' := by
  rcases add_eq_ok h with ⟨_, rfl⟩ | ⟨_, _, rfl, _⟩
  · exact List.prefix_refl items'
  · exact List.prefix_append items [acc]

theorem add_function : acc.function = a.function := by
  rcases add_eq_ok h with ⟨hk, _⟩ | ⟨_, _, _, rfl⟩
  · exact (find?_eq_some hk).2.1
  · rfl

theorem add_operand : acc.operand = operand.location := by
  rcases add_eq_ok h with ⟨hk, _⟩ | ⟨_, _, _, rfl⟩
  · exact (find?_eq_some hk).2.2
  · rfl

theorem add_nodup (hn : (items.map (·.name)).Nodup) : (items'.map (·.name)).Nodup := by
  rcases add_eq_ok h with ⟨_, rfl⟩ | ⟨_, _, rfl, rfl⟩
  · exact hn
  · rw [List.map_append]
    refine List.Nodup.append hn (List.nodup_singleton _) ?_
    rw [List.map_singleton, List.disjoint_singleton]
    exact (freeName_mem a.name (items.map (·.name))).2

theorem add_solid (hs : ∀ acc ∈ items, Text.Solid '.' acc.name) :
    ∀ acc ∈ items', Text.Solid '.' acc.name := by
  rcases add_eq_ok h with ⟨_, rfl⟩ | ⟨type, ht, rfl, rfl⟩
  · exact hs
  · intro other hm
    rcases List.mem_append.1 hm with hm | hm
    · exact hs other hm
    · cases List.mem_singleton.1 hm
      have hmem := (freeName_mem a.name (items.map (·.name))).1
      exact solid_of_mem_candidates (Aggregate.name_solid ht) hmem

end

end Accumulators

/-- An accumulator of an aggregate over the field that the operand of the aggregate leads to. -/
structure Accumulator.Computes (catalog : Catalog) (root : Entity) (a : Aggregate)
    (acc : Accumulator) : Prop where
  function : acc.function = a.function
  operand : ∃ ref : FieldRef, ref.Resolves catalog root a.operand ∧
    acc.operand = ref.location ∧ acc.operandType = ref.type ∧ a.resultType ref = .ok acc.resultType

theorem Aggregate.resultType_congr {a b : Aggregate} {ref ref' : FieldRef}
    (hf : a.function = b.function) (ht : ref.type = ref'.type)
    (h : a.resultType ref = .ok type) : b.resultType ref' = .ok type := by
  simp only [resultType, ← hf, ← ht] at h ⊢
  cases hfun : a.function with
  | count | countDistinct => simpa only [hfun] using h
  | sum =>
    simp only [hfun] at h ⊢
    split at h
    · cases h
    · next hn => rwa [if_neg hn]
  | avg | min | max =>
    simp only [hfun] at h ⊢
    split at h
    · next hn => rwa [if_pos hn]
    · cases h
  | other name =>
    simp only [hfun] at h
    cases h

theorem Accumulator.Computes.of_location {a b : Aggregate} {acc : Accumulator} {ref : FieldRef}
    (h : acc.Computes catalog root a) (hf : acc.function = b.function)
    (hr : ref.Resolves catalog root b.operand) (hl : acc.operand = ref.location) :
    acc.Computes catalog root b := by
  obtain ⟨known, hk, ho, ht, hres⟩ := h.operand
  have htype : known.type = ref.type := hk.type_eq hr (ho.symm.trans hl)
  refine ⟨hf, ref, hr, hl, ht.trans htype, ?_⟩
  exact Aggregate.resultType_congr (h.function.symm.trans hf) htype hres

theorem Accumulators.add_computes {items items' : List Accumulator}
    (h : add items a ref = .ok (acc, items')) (hr : ref.Resolves catalog root a.operand)
    (hi : ∀ acc ∈ items, ∃ b, acc.Computes catalog root b) :
    acc.Computes catalog root a ∧ ∀ acc ∈ items', ∃ b, acc.Computes catalog root b := by
  have hc : acc.Computes catalog root a := by
    rcases add_eq_ok h with ⟨hk, _⟩ | ⟨type, ht, _, rfl⟩
    · obtain ⟨hm, hf, hl⟩ := find?_eq_some hk
      obtain ⟨b, hb⟩ := hi acc hm
      exact hb.of_location hf hr hl
    · exact ⟨rfl, ref, hr, rfl, rfl, ht⟩
  refine ⟨hc, ?_⟩
  rcases add_eq_ok h with ⟨_, rfl⟩ | ⟨_, _, rfl, _⟩
  · exact hi
  · intro other hm
    rcases List.mem_append.1 hm with hm | hm
    · exact hi other hm
    · exact ⟨a, List.mem_singleton.1 hm ▸ hc⟩

theorem FieldTable.get_of_find? {fields : FieldTable} (h : fields.find? written = some ref) :
    fields.get written = ref := by
  rw [FieldTable.get, h]
  rfl

namespace Compile

/-- Accumulators under names of their own, and among them those of the selection. -/
structure Grouping.Sound (g : Grouping) : Prop where
  nodup : (g.accumulators.map (·.name)).Nodup
  solid : ∀ acc ∈ g.accumulators, Text.Solid '.' acc.name
  named : ∀ n ∈ g.named, n.2 ∈ g.accumulators

/-- Whatever is added to a grouping keeps its keys and the accumulators that it has. -/
structure Grouping.Extends (g g' : Grouping) : Prop where
  keys : g'.keys = g.keys
  accumulators : g.accumulators <+: g'.accumulators

theorem Grouping.Sound.ofKeys (keys : List GroupKey) : Grouping.Sound { keys } :=
  ⟨List.nodup_nil, fun _ hn => (nomatch hn), fun _ hn => nomatch hn⟩

theorem Grouping.Sound.add {g : Grouping} {items : List Accumulator} (hs : g.Sound)
    (h : Accumulators.add g.accumulators a ref = .ok (acc, items)) :
    Grouping.Sound { g with accumulators := items } := by
  have hp := Accumulators.add_prefix h
  exact ⟨Accumulators.add_nodup h hs.nodup, Accumulators.add_solid h hs.solid,
    fun n hn => hp.subset (hs.named n hn)⟩

theorem Grouping.Sound.addNamed {g : Grouping} {items : List Accumulator} (hs : g.Sound)
    (h : Accumulators.add g.accumulators a ref = .ok (acc, items)) (name : String) :
    Grouping.Sound { g with accumulators := items, named := g.named ++ [(name, acc)] } := by
  refine ⟨(hs.add h).nodup, (hs.add h).solid, fun n hn => ?_⟩
  rcases List.mem_append.1 hn with hn | hn
  · exact (hs.add h).named n hn
  · rw [List.mem_singleton.1 hn]
    exact Accumulators.add_mem h

/-- A selected expression has a place in the groups: a key, or an accumulator of its own name. -/
def Selected.Chosen (catalog : Catalog) (root : Entity) (fields : FieldTable) (g : Grouping)
    (s : Selected) : Prop :=
  match s.reference.aggregate with
  | none => isKey g.keys (fields.get s.reference.path).location = true
  | some a => ∃ acc ∈ g.accumulators, acc.Computes catalog root a ∧
      g.named.find? (fun n => n.1 == s.name) = some (s.name, acc)

theorem addSelected_named (selection : List Selected)
    (h : addSelected fields g selection = .ok g') : g.named <+: g'.named := by
  induction selection generalizing g with
  | nil =>
    cases h
    exact List.prefix_refl _
  | cons s rest ih =>
    simp only [addSelected] at h
    split at h
    · split at h
      · exact ih h
      · cases h
    · split at h
      · cases h
      · exact (List.prefix_append _ _).trans (ih h)

theorem addSelected_sound (selection : List Selected) (hs : g.Sound)
    (h : addSelected fields g selection = .ok g') : g'.Sound ∧ g.Extends g' := by
  induction selection generalizing g with
  | nil =>
    cases h
    exact ⟨hs, rfl, List.prefix_refl _⟩
  | cons s rest ih =>
    simp only [addSelected] at h
    split at h
    · split at h
      · exact ih hs h
      · cases h
    · split at h
      · cases h
      next acc items ha =>
        obtain ⟨hsound, hext⟩ := ih (hs.addNamed ha s.name) h
        exact ⟨hsound, hext.keys, (Accumulators.add_prefix ha).trans hext.accumulators⟩

theorem addSelected_chosen (selection : List Selected)
    (hf : fields.Resolved catalog root)
    (hp : ∀ s ∈ selection, ∃ ref, fields.find? s.reference.path = some ref)
    (ha : ∀ s ∈ selection, ∀ a, s.reference.aggregate = some a → s.reference.path = a.operand)
    (hn : (g.named.map (·.1) ++ selection.map (·.name)).Nodup) (hs : g.Sound)
    (hc : ∀ acc ∈ g.accumulators, ∃ b, acc.Computes catalog root b)
    (h : addSelected fields g selection = .ok g') :
    ∀ s ∈ selection, s.Chosen catalog root fields g' := by
  induction selection generalizing g with
  | nil => exact fun _ hm => nomatch hm
  | cons s rest ih =>
    have hprest := fun s hs => hp s (List.mem_cons_of_mem _ hs)
    have harest := fun s hs => ha s (List.mem_cons_of_mem _ hs)
    simp only [addSelected] at h
    split at h
    · next hagg =>
      split at h
      · next hkey =>
        refine List.forall_mem_cons.2 ⟨?_, ih hprest harest ?_ hs hc h⟩
        · rw [Selected.Chosen, hagg, (addSelected_sound rest hs h).2.keys]
          exact hkey
        · rw [List.map_cons] at hn
          exact hn.sublist ((List.sublist_cons_self _ _).append_left _)
      · cases h
    · next a hagg =>
      split at h
      · cases h
      next acc items hadd =>
        obtain ⟨ref, hfind⟩ := hp s List.mem_cons_self
        have hresolves : ref.Resolves catalog root a.operand := by
          rw [← ha s List.mem_cons_self a hagg]
          exact hf _ _ hfind
        rw [FieldTable.get_of_find? hfind] at hadd
        obtain ⟨hcomputes, hall⟩ := Accumulators.add_computes hadd hresolves hc
        have hmem := Accumulators.add_mem hadd
        have hnamed := hs.addNamed hadd s.name
        refine List.forall_mem_cons.2 ⟨?_, ih hprest harest ?_ hnamed hall h⟩
        · rw [Selected.Chosen, hagg]
          refine ⟨acc, (addSelected_sound rest hnamed h).2.accumulators.subset hmem, hcomputes, ?_⟩
          have hfresh : g.named.find? (fun n => n.1 == s.name) = none := by
            refine List.find?_eq_none.2 fun n hm he => ?_
            have hdisjoint := (List.nodup_append.1 hn).2.2
            exact hdisjoint n.1 (List.mem_map_of_mem hm) s.name List.mem_cons_self
              (beq_iff_eq.1 he)
          obtain ⟨more, hmore⟩ := addSelected_named rest h
          rw [← hmore, List.find?_append, List.find?_append, hfresh]
          simp
        · simpa [List.map_append] using hn

theorem readSelection_eq_ok {items : List SelectItem} {taken : List String}
    (h : readSelection taken items = .ok selection) :
    List.Forall₂ (fun item s => s.name = item.name ∧
      Reference.parse item.source = .ok s.reference) items selection ∧
      (selection.map (·.name)).Nodup ∧ ∀ s ∈ selection, s.name ∉ taken := by
  induction items generalizing taken selection with
  | nil =>
    cases h
    exact ⟨.nil, List.nodup_nil, fun _ hs => nomatch hs⟩
  | cons item rest ih =>
    simp only [readSelection] at h
    split at h
    · cases h
    split at h
    · cases h
    next htaken =>
      split at h
      · cases h
      next reference hr =>
        obtain ⟨others, ho, rfl⟩ := map_eq_ok h
        obtain ⟨hrel, hnodup, hfresh⟩ := ih ho
        refine ⟨.cons ⟨rfl, hr⟩ hrel, ?_, ?_⟩
        · refine List.nodup_cons.2 ⟨fun hm => ?_, hnodup⟩
          obtain ⟨s, hs, he⟩ := List.mem_map.1 hm
          exact hfresh s hs (he ▸ List.mem_cons_self)
        · refine List.forall_mem_cons.2 ⟨fun hm => htaken (List.contains_iff_mem.2 hm), ?_⟩
          exact fun s hs hm => hfresh s hs (List.mem_cons_of_mem _ hm)

end Compile

end NeutralQuery
