import NeutralQuery.Proofs.Memory.Extremes
import NeutralQuery.Proofs.Memory.Identity
import NeutralQuery.Proofs.Plan.Literals

namespace NeutralQuery

/-- Traversals of the same members in another order give the same results in another order. -/
theorem mapM_perm {f : α → Outcome β} {xs xs' : List α} {ys : List β} (hp : xs'.Perm xs)
    (h : xs.mapM f = .ok ys) : ∃ ys', xs'.mapM f = .ok ys' ∧ ys'.Perm ys := by
  obtain ⟨ys', hys, hperm⟩ := List.perm_comp_forall₂ hp (forall₂_of_mapM h)
  exact ⟨ys', mapM_of_forall₂ hys, hperm⟩

/-- Accumulators whose results say how many or how much, whatever the order of the rows. -/
def Accumulator.IsTally (acc : Accumulator) : Prop :=
  acc.function = .count ∨ acc.function = .countDistinct ∨
    acc.function = .sum ∧ acc.resultType = .int

namespace Memory

section Rows

variable {paths : List String} {rows rows' : List Row} {groups : List Group} {g : Group}

theorem Group.add_rows (g : Group) (groups : List Group) :
    ((g.add groups).flatMap (·.rows)).Perm (groups.flatMap (·.rows) ++ g.rows) := by
  induction groups with
  | nil => simp [Group.add]
  | cons h rest ih =>
    rw [Group.add]
    split
    · rw [List.flatMap_cons, List.flatMap_cons, List.append_assoc, List.append_assoc]
      exact List.perm_append_comm.append_left h.rows
    · rw [List.flatMap_cons, List.flatMap_cons, List.append_assoc]
      exact ih.append_left h.rows

theorem foldl_add_rows (groups : List Group) (rows : List Row) :
    ((rows.foldl (fun groups row => (Group.ofRow paths row).add groups) groups).flatMap
      (·.rows)).Perm (groups.flatMap (·.rows) ++ rows) := by
  induction rows generalizing groups with
  | nil => simp
  | cons row rest ih =>
    have hrow := ((Group.ofRow paths row).add_rows groups).append_right rest
    rw [List.append_assoc] at hrow
    exact (ih _).trans hrow

theorem groupRows_rows (paths : List String) (rows : List Row) :
    ((groupRows paths rows).flatMap (·.rows)).Perm rows := by
  rw [groupRows.eq_def]
  split
  · exact .refl _
  · exact foldl_add_rows [] rows

theorem mem_groupRows_ids (hr : rows ≠ []) :
    i ∈ (groupRows paths rows).map (·.id) ↔ ∃ row ∈ rows, groupId paths row = i := by
  have hp : Partition paths rows (groupRows paths rows) := groupRows_partition (.inr hr)
  constructor
  · intro hi
    obtain ⟨g, hg, rfl⟩ := List.mem_map.1 hi
    obtain ⟨row, hrow, hid, _⟩ := hp.id_of_keys hg
    exact ⟨row, hrow, hid⟩
  · rintro ⟨row, hrow, rfl⟩
    exact hp.covers row hrow

theorem groupRows_ids_perm (hr : rows ≠ []) (hp : rows'.Perm rows) :
    ((groupRows paths rows').map (·.id)).Perm ((groupRows paths rows).map (·.id)) := by
  have hr' : rows' ≠ [] := fun h => hr (h ▸ hp).symm.eq_nil
  refine (List.perm_ext_iff_of_nodup (groupRows_partition (.inr hr')).nodup
    (groupRows_partition (.inr hr)).nodup).2 fun i => ?_
  rw [mem_groupRows_ids hr', mem_groupRows_ids hr]
  exact exists_congr fun row => and_congr_left fun _ => hp.mem_iff

/-- Groups of one identity hold the same rows, whatever the order of all rows. -/
theorem rows_perm_of_id (hp : rows'.Perm rows) (hg : g ∈ groupRows paths rows)
    (hg' : g' ∈ groupRows paths rows') (hid : g'.id = g.id) : g'.rows.Perm g.rows := by
  rw [(mem_groupRows hg).1, (mem_groupRows hg').1, hid]
  exact hp.filter _

end Rows

section Results

variable {acc : Accumulator} {rows rows' : List Row} {values values' : List Value}

theorem operandOf_eq_none (h : operandOf acc row = .ok x) :
    x = none ↔ (row.get acc.operand).isNull = true := by
  rw [operandOf] at h
  split at h
  · next hn =>
    cases h
    exact iff_of_true rfl hn
  · next hn =>
    split at h
    · cases h
      exact iff_of_false (Option.some_ne_none _) hn
    · obtain ⟨v, _, rfl⟩ := map_eq_ok h
      exact iff_of_false (Option.some_ne_none _) hn

theorem operands_eq_nil (h : operands acc rows = .ok values) :
    values = [] ↔ ∀ row ∈ rows, (row.get acc.operand).isNull = true := by
  obtain ⟨found, hfound, rfl⟩ := map_eq_ok h
  have hrel := forall₂_of_mapM hfound
  rw [List.filterMap_eq_nil_iff]
  constructor
  · intro hnone row hrow
    obtain ⟨x, hx, hop⟩ := exists_right_of_forall₂ hrel hrow
    exact (operandOf_eq_none hop).1 (hnone x hx)
  · intro hnull x hx
    obtain ⟨row, hrow, hop⟩ := exists_left_of_forall₂ hrel hx
    exact (operandOf_eq_none hop).2 (hnull row hrow)

theorem length_operands_le (h : operands acc rows = .ok values) : values.length ≤ rows.length := by
  obtain ⟨found, hfound, rfl⟩ := map_eq_ok h
  rw [(forall₂_of_mapM hfound).length_eq]
  exact List.length_filterMap_le _ _

theorem operands_perm (hp : rows'.Perm rows) (h : operands acc rows = .ok values) :
    ∃ values', operands acc rows' = .ok values' ∧ values'.Perm values := by
  obtain ⟨found, hfound, rfl⟩ := map_eq_ok h
  obtain ⟨found', hfound', hperm⟩ := mapM_perm hp hfound
  exact ⟨_, by rw [operands, hfound']; rfl, hperm.filterMap id⟩

theorem nodup_eraseDups (l : List String) : l.eraseDups.Nodup := by
  match l with
  | [] => exact List.nodup_nil
  | s :: rest =>
    rw [List.eraseDups_cons, List.nodup_cons]
    refine ⟨fun hm => ?_, nodup_eraseDups _⟩
    simp [List.mem_eraseDups] at hm
termination_by l.length
decreasing_by exact Nat.lt_succ_of_le (List.length_filter_le _ _)

theorem length_eraseDups (l : List String) : l.eraseDups.length = l.toFinset.card := by
  rw [← List.toFinset_card_of_nodup (nodup_eraseDups l)]
  congr 1
  ext s
  rw [List.mem_toFinset, List.mem_toFinset, List.mem_eraseDups]

theorem sumInts_perm (hp : values'.Perm values) : sumInts values' = sumInts values := by
  refine hp.foldl_eq' (fun v _ w _ sum => ?_) 0
  rw [wrap64, wrap64, wrap64, wrap64, Int.bmod_add_bmod, Int.bmod_add_bmod, Int.add_right_comm]

theorem accumulate_countDistinct (hf : acc.function = .countDistinct)
    (h : accumulate registry rows acc = .ok v) :
    ∃ n : Nat, v = .ofInt64 n ∧ n ≤ rows.length ∧
      (n = 0 ↔ ∀ row ∈ rows, (row.get acc.operand).isNull = true) := by
  have hcount : AggregateFunction.countDistinct ≠ .count := by decide
  rw [accumulate, hf, if_neg hcount] at h
  cases hv : operands acc rows with
  | error e => simp [hv] at h
  | ok values =>
    simp only [hv, aggregate, hf] at h
    cases h
    refine ⟨_, rfl, ?_, ?_⟩
    · rw [length_eraseDups]
      have hle := List.toFinset_card_le (values.map valueKey)
      rw [List.length_map] at hle
      exact hle.trans (length_operands_le hv)
    · rw [length_eraseDups, Finset.card_eq_zero, List.toFinset_eq_empty_iff, List.map_eq_nil_iff,
        operands_eq_nil hv]

theorem accumulate_perm (ht : acc.IsTally) (hp : rows'.Perm rows)
    (h : accumulate registry rows acc = .ok v) : accumulate registry rows' acc = .ok v := by
  rw [accumulate] at h ⊢
  split at h
  · next hc => rw [if_pos hc, hp.length_eq, h]
  next hc =>
  rw [if_neg hc]
  cases hv : operands acc rows with
  | error e => simp [hv] at h
  | ok values =>
    obtain ⟨values', hv', hperm⟩ := operands_perm hp hv
    simp only [hv, hv'] at h ⊢
    rcases ht with ht | ht | ⟨ht, hi⟩
    · exact absurd ht hc
    · rw [aggregate, ht] at h ⊢
      simp only [length_eraseDups] at h ⊢
      rw [List.toFinset_eq_of_perm _ _ (hperm.map valueKey)]
      exact h
    · rw [aggregate, ht] at h ⊢
      simp only [if_pos hi, sumInts_perm hperm] at h ⊢
      exact h

theorem operands_present (h : operands acc rows = .ok values) :
    ∀ v ∈ values, v.isNull = false := by
  intro v hv
  obtain ⟨found, hfound, rfl⟩ := map_eq_ok h
  obtain ⟨x, hx, rfl⟩ := List.mem_filterMap.1 hv
  obtain ⟨row, _, hop⟩ := exists_of_mapM hfound hx
  rw [operandOf] at hop
  split at hop
  · cases hop
  · next hn =>
    split at hop
    · cases hop
      exact Bool.eq_false_iff.2 hn
    · obtain ⟨w, hw, he⟩ := map_eq_ok hop
      cases he
      rw [convert_isNull hw]
      exact Bool.eq_false_iff.2 hn

theorem accumulate_isOk (hp : rows'.Perm rows) (h : accumulate .standard rows acc = .ok v) :
    ∃ v', accumulate .standard rows' acc = .ok v' := by
  rw [accumulate] at h ⊢
  split at h
  · next hc => exact ⟨_, if_pos hc⟩
  next hc =>
  rw [if_neg hc]
  cases hv : operands acc rows with
  | error e => simp [hv] at h
  | ok values =>
    obtain ⟨values', hv', hperm⟩ := operands_perm hp hv
    have hn := operands_present hv
    simp only [hv, hv'] at h ⊢
    rw [aggregate.eq_def] at h ⊢
    cases hf : acc.function with
    | count => exact absurd hf hc
    | countDistinct => exact ⟨_, rfl⟩
    | sum =>
      dsimp only
      split <;> exact ⟨_, rfl⟩
    | avg =>
      dsimp only
      split <;> exact ⟨_, rfl⟩
    | min =>
      rw [hf] at h
      exact extreme_perm hn hperm h
    | max =>
      rw [hf] at h
      exact extreme_perm hn hperm h
    | other name =>
      rw [hf] at h
      cases h

end Results

section Groups

variable {registry : Registry} {keys : List GroupKey} {accumulators : List Accumulator}
  {rows rows' out out' : List Row}

/-- What an accumulator gives is shown under its name: no later one has it too. -/
def Shown (accumulators : List Accumulator) (acc : Accumulator) : Prop :=
  ∃ before after, accumulators = before ++ acc :: after ∧ acc.name ∉ after.map (·.name)

theorem find?_putAll_last {results : List (String × Value)}
    (hrel : List.Forall₂ (fun acc r => r.1 = acc.name ∧ accumulate registry rows acc = .ok r.2)
      (before ++ acc :: after) results) (hlater : acc.name ∉ after.map (·.name)) (row : Row) :
    ∃ v, accumulate registry rows acc = .ok v ∧
      Row.find? (results.foldl (fun row r => Row.put r.1 r.2 row) row) acc.name = some v := by
  induction before generalizing results row with
  | nil =>
    obtain @⟨⟩ | @⟨_, r, _, rest, ⟨hname, hv⟩, hrest⟩ := hrel
    have hrest : acc.name ∉ rest.map (·.1) := by
      intro hm
      obtain ⟨other, ho, he⟩ := List.mem_map.1 hm
      obtain ⟨later, hl, hn, _⟩ := exists_left_of_forall₂ hrest ho
      exact hlater (List.mem_map.2 ⟨later, hl, hn.symm.trans he⟩)
    refine ⟨r.2, hv, ?_⟩
    rw [List.foldl_cons, Row.find?_putAll_of_not_mem hrest, hname, Row.find?_put_self]
  | cons first before ih =>
    obtain @⟨⟩ | @⟨_, r, _, rest, _, hrest⟩ := hrel
    exact ih hrest _

theorem groupRow_shown (hs : Shown accumulators acc)
    (h : groupRow registry paths accumulators g = .ok row) :
    ∃ v, accumulate registry (g.settled paths) acc = .ok v ∧
      Row.find? row acc.name = some v := by
  obtain ⟨before, after, rfl, hlater⟩ := hs
  obtain ⟨results, hr, rfl⟩ := map_eq_ok h
  have hrel : List.Forall₂ (fun acc r => r.1 = acc.name ∧
      accumulate registry (g.settled paths) acc = .ok r.2) (before ++ acc :: after) results := by
    refine (forall₂_of_mapM hr).imp fun acc r he => ?_
    obtain ⟨v, hv, rfl⟩ := map_eq_ok he
    exact ⟨rfl, hv⟩
  exact find?_putAll_last hrel hlater _

/-- What the row of a group shows: how many rows the group has, and how many different values of an
operand, which is none if and only if the operand is absent from them all when the keys are put. -/
structure Tallied (paths : List String) (accumulators : List Accumulator) (g : Group) (row : Row) :
    Prop where
  count : ∀ acc, Shown accumulators acc → acc.function = .count →
    Row.find? row acc.name = some (.ofInt64 (g.rows.length : Nat))
  different : ∀ acc, Shown accumulators acc → acc.function = .countDistinct →
    ∃ n : Nat, Row.find? row acc.name = some (.ofInt64 n) ∧ n ≤ g.rows.length ∧
      (n = 0 ↔ ∀ r ∈ g.settled paths, (r.get acc.operand).isNull = true)

theorem groupRow_tallied (h : groupRow registry paths accumulators g = .ok row) :
    Tallied paths accumulators g row := by
  refine ⟨fun acc hs hf => ?_, fun acc hs hf => ?_⟩
  · obtain ⟨v, hv, hshown⟩ := groupRow_shown hs h
    rw [accumulate, if_pos hf, g.length_settled] at hv
    cases hv
    exact hshown
  · obtain ⟨v, hv, hshown⟩ := groupRow_shown hs h
    obtain ⟨n, rfl, hle, hnone⟩ := accumulate_countDistinct hf hv
    rw [g.length_settled] at hle
    exact ⟨n, hshown, hle, hnone⟩

/-- One group, with its rows in another order. The counts are the same, and all tallies where no key
leads into the record of another. -/
structure Alike (paths : List String) (accumulators : List Accumulator) (a b : Group × Row) :
    Prop where
  id : b.1.id = a.1.id
  rows : b.1.rows.Perm a.1.rows
  counts : ∀ acc, Shown accumulators acc → acc.function = .count →
    Row.find? b.2 acc.name = Row.find? a.2 acc.name
  tallies : a.1.Steady paths → b.1.Steady paths → ∀ acc, Shown accumulators acc → acc.IsTally →
    Row.find? b.2 acc.name = Row.find? a.2 acc.name

theorem groupRow_alike (hp : g'.rows.Perm g.rows) (hid : g'.id = g.id)
    (h : groupRow registry paths accumulators g = .ok row)
    (h' : groupRow registry paths accumulators g' = .ok row') :
    Alike paths accumulators (g, row) (g', row') := by
  refine ⟨hid, hp, fun acc hs hf => ?_, fun hg hg' acc hs ht => ?_⟩
  · rw [(groupRow_tallied h').count acc hs hf, (groupRow_tallied h).count acc hs hf, hp.length_eq]
  · obtain ⟨v, hv, hshown⟩ := groupRow_shown hs h
    obtain ⟨v', hv', hshown'⟩ := groupRow_shown hs h'
    rw [hg.settled] at hv
    rw [hg'.settled] at hv'
    cases hv'.symm.trans (accumulate_perm ht hp hv)
    exact hshown'.trans hshown.symm

theorem groupRow_isOk (hp : g'.rows.Perm g.rows) (hg : g.Steady paths) (hg' : g'.Steady paths)
    (h : groupRow .standard paths accumulators g = .ok row) :
    ∃ row', groupRow .standard paths accumulators g' = .ok row' := by
  obtain ⟨results, hr, _⟩ := map_eq_ok h
  refine map_ok _ (mapM_ok fun acc hm => ?_)
  obtain ⟨r, hr⟩ := eq_ok_of_mapM hr hm
  obtain ⟨v, hv, _⟩ := map_eq_ok hr
  rw [hg.settled] at hv
  rw [hg'.settled]
  exact map_ok _ (accumulate_isOk hp hv)

theorem exists_same_group (hp : rows'.Perm rows) (hg' : g' ∈ groupRows paths rows') :
    ∃ g ∈ groupRows paths rows, g'.id = g.id ∧ g'.rows.Perm g.rows := by
  by_cases hr : rows = []
  · subst hr
    rw [hp.eq_nil] at hg'
    exact ⟨g', hg', rfl, .refl _⟩
  · have hid := (groupRows_ids_perm hr hp).mem_iff.1 (List.mem_map_of_mem hg')
    obtain ⟨g, hg, hid⟩ := List.mem_map.1 hid
    exact ⟨g, hg, hid.symm, rows_perm_of_id hp hg hg' hid.symm⟩

theorem zip_of_mapM {f : α → Outcome β} {xs : List α} {ys : List β} (h : xs.mapM f = .ok ys) :
    (xs.zip ys).map (·.1) = xs ∧ ∀ p ∈ xs.zip ys, p.1 ∈ xs ∧ f p.1 = .ok p.2 := by
  obtain ⟨hlength, hall⟩ := List.forall₂_iff_zip.1 (forall₂_of_mapM h)
  exact ⟨List.map_fst_zip hlength.le, fun p hp => ⟨(List.of_mem_zip hp).1, hall hp⟩⟩

theorem exists_matched (hp : rows'.Perm rows) (h : group registry keys accumulators rows = .ok out)
    (h' : group registry keys accumulators rows' = .ok out') :
    ∃ matched, matched.Perm ((groupRows (keys.map (·.path)) rows').zip out') ∧
      List.Forall₂ (Alike (keys.map (·.path)) accumulators)
        ((groupRows (keys.map (·.path)) rows).zip out) matched := by
  by_cases hr : rows = []
  · subst hr
    cases hp.eq_nil
    cases h.symm.trans h'
    refine ⟨_, .refl _, List.forall₂_same.2 fun p _ => ?_⟩
    exact ⟨rfl, .refl _, fun _ _ _ => rfl, fun _ _ _ _ _ => rfl⟩
  obtain ⟨hzip, hmem⟩ := zip_of_mapM h
  obtain ⟨hzip', hmem'⟩ := zip_of_mapM h'
  -- Both lists of groups are put in the order of the identities of the first.
  have hids : ((groupRows (keys.map (·.path)) rows).map (·.id)).Perm
      ((groupRows (keys.map (·.path)) rows').map (·.id)) := (groupRows_ids_perm hr hp).symm
  rw [← hzip, ← hzip', List.map_map, List.map_map] at hids
  obtain ⟨matched, hmatched, hperm⟩ := List.perm_comp_forall₂ hids
    (List.forall₂_map_left_iff.2 (List.forall₂_same.2 fun p hm => ⟨rfl, hmem' p hm⟩) :
      List.Forall₂ (fun i (p : Group × Row) => p.1.id = i ∧
        p.1 ∈ groupRows (keys.map (·.path)) rows' ∧
        groupRow registry (keys.map (·.path)) accumulators p.1 = .ok p.2) _ _)
  refine ⟨matched, hperm, ?_⟩
  refine ((List.forall₂_and_left _ _).2 ⟨hmem, List.forall₂_map_left_iff.1 hmatched⟩).imp ?_
  rintro a b ⟨⟨hg, ha⟩, hid, hg', hb⟩
  exact groupRow_alike (rows_perm_of_id hp hg hg' hid) hid ha hb

theorem group_isOk (hp : rows'.Perm rows)
    (hs : ∀ g ∈ groupRows (keys.map (·.path)) rows, g.Steady (keys.map (·.path)))
    (hs' : ∀ g ∈ groupRows (keys.map (·.path)) rows', g.Steady (keys.map (·.path)))
    (h : group .standard keys accumulators rows = .ok out) :
    ∃ out', group .standard keys accumulators rows' = .ok out' := by
  refine mapM_ok fun g' hg' => ?_
  obtain ⟨g, hg, _, hrows⟩ := exists_same_group hp hg'
  obtain ⟨row, hrow⟩ := eq_ok_of_mapM h hg
  exact groupRow_isOk hrows (hs g hg) (hs' g' hg') hrow

theorem nodup_groupRows_ids (paths : List String) (rows : List Row) :
    ((groupRows paths rows).map (·.id)).Nodup := by
  by_cases h : paths ≠ [] ∨ rows ≠ []
  · exact (groupRows_partition h).nodup
  · simp only [ne_eq, not_or, not_not] at h
    rw [h.1, h.2]
    exact List.nodup_singleton _

/-- Where rows can be grouped, each is in one group, and each group shows how many rows it has and
how many different values of an operand. The counts add up to the number of rows. The same rows in
another order have the same groups with the same counts, in another order, and with the same tallies
where no key leads into the record of another; the rows are then counted as they are. -/
theorem group_conserves (h : group registry keys accumulators rows = .ok out) :
    let paths := keys.map (·.path)
    let groups := groupRows paths rows
    (groups.map (·.id)).Nodup ∧ (groups.flatMap (·.rows)).Perm rows ∧
    List.Forall₂ (Tallied paths accumulators) groups out ∧
    (∀ g ∈ groups, g.Steady paths → g.settled paths = g.rows) ∧
    (∀ acc, Shown accumulators acc → acc.function = .count → ∃ counts : List Nat,
      List.Forall₂ (fun row n => Row.find? row acc.name = some (.ofInt64 (n : Nat))) out counts ∧
        counts.sum = rows.length) ∧
    ∀ rows', rows'.Perm rows →
      (registry = .standard → (∀ g ∈ groups, g.Steady paths) →
        (∀ g ∈ groupRows paths rows', g.Steady paths) →
        ∃ out', group registry keys accumulators rows' = .ok out') ∧
      ∀ out', group registry keys accumulators rows' = .ok out' →
        ∃ matched, matched.Perm ((groupRows paths rows').zip out') ∧
          List.Forall₂ (Alike paths accumulators) (groups.zip out) matched := by
  intro paths groups
  have htallied : List.Forall₂ (Tallied paths accumulators) groups out :=
    (forall₂_of_mapM h).imp fun g row hrow => groupRow_tallied hrow
  have hrows := groupRows_rows paths rows
  refine ⟨nodup_groupRows_ids _ _, hrows, htallied, fun g _ hg => hg.settled, fun acc hs hf => ?_,
    fun rows' hp => ⟨?_, ?_⟩⟩
  · refine ⟨groups.map (·.rows.length), ?_, ?_⟩
    · exact List.forall₂_map_right_iff.2 (htallied.flip.imp fun row g hg => hg.count acc hs hf)
    · rw [← hrows.length_eq, List.length_flatMap]
  · rintro rfl hs hs'
    exact group_isOk hp hs hs' h
  · exact fun out' h' => exists_matched hp h h'

end Groups

end Memory

namespace Sample

def scores : Accumulator := ⟨"scores", .countDistinct, "score", .int, .int⟩

def points : Accumulator := ⟨"points", .sum, "score", .int, .int⟩

/-- Scores of two teams, one of them without any. -/
def played : List Row :=
  [[("team", .ofInt64 7), ("score", .ofInt64 3)], [("team", .ofInt64 8), ("score", .null)],
    [("team", .ofInt64 7), ("score", .ofInt64 3)], [("team", .ofInt64 8)]]

def tallied : List Row :=
  [[("team", .ofInt64 7), ("count_id", .ofInt64 2), ("scores", .ofInt64 1), ("points", .ofInt64 6)],
    [("team", .ofInt64 8), ("count_id", .ofInt64 2), ("scores", .ofInt64 0),
      ("points", .ofInt64 0)]]

end Sample

theorem Memory.group_conserves_played :
    group .standard [⟨"team", .int⟩] [Sample.people, Sample.scores, Sample.points] Sample.played =
        .ok Sample.tallied ∧
      (∃ counts : List Nat, List.Forall₂
        (fun row n => Row.find? row "count_id" = some (.ofInt64 (n : Nat))) Sample.tallied counts ∧
          counts.sum = 4) ∧
      ∃ out, group .standard [⟨"team", .int⟩] [Sample.people, Sample.scores, Sample.points]
        Sample.played.reverse = .ok out := by
  have hg : group .standard [⟨"team", .int⟩] [Sample.people, Sample.scores, Sample.points]
      Sample.played = .ok Sample.tallied := rfl
  have hsteady : ∀ g : Group, g.Steady ["team"] :=
    Group.steady_of_paths (List.pairwise_singleton _ _)
  obtain ⟨_, _, _, _, hcounts, horder⟩ := group_conserves hg
  refine ⟨hg, hcounts Sample.people ⟨[], _, rfl, by decide⟩ rfl, ?_⟩
  exact (horder _ (List.reverse_perm _)).1 rfl (fun g _ => hsteady g) fun g _ => hsteady g

namespace Sample

def parts : Accumulator := ⟨"parts", .countDistinct, "meta.x", .any, .int⟩

def unnoted : List Row := [[("id", .ofInt64 1), ("meta", .record [])]]

def noted : List Row := [[("meta", .record [("x", .record [("y", .null)])]), ("parts", .ofInt64 1)]]

end Sample

/-- A key below another that is a record makes a record there, in the row of the group and in its
first row alike, and is counted although no row had a value of the operand. -/
theorem Memory.group_counts_absent :
    (∀ row ∈ Sample.unnoted, row.get? "meta.x" = none) ∧
      group .standard [⟨"meta", .object⟩, ⟨"meta.x.y", .any⟩] [Sample.parts] Sample.unnoted =
        .ok Sample.noted := by
  let paths := ["meta", "meta.x.y"]
  let g := Group.ofRow paths [("id", .ofInt64 1), ("meta", .record [])]
  have hsettle : g.settle paths = ([("meta", .record [("x", .record [("y", .null)])])],
      [("id", .ofInt64 1), ("meta", .record [("x", .record [("y", .null)])])]) := by cbv
  have hrow : groupRow .standard paths [Sample.parts] g = .ok
      [("meta", .record [("x", .record [("y", .null)])]), ("parts", .ofInt64 1)] := by
    rw [groupRow, Group.settled, hsettle]
    rfl
  constructor
  · exact List.forall_mem_singleton.2 rfl
  · calc group .standard [⟨"meta", .object⟩, ⟨"meta.x.y", .any⟩] [Sample.parts] Sample.unnoted
        = [g].mapM (groupRow .standard paths [Sample.parts]) := rfl
      _ = .ok Sample.noted := by
        rw [List.mapM_cons, hrow]
        rfl

end NeutralQuery
