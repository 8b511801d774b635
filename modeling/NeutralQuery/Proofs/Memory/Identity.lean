import Mathlib.Data.Set.Card
import NeutralQuery.Proofs.Memory.Groups
import NeutralQuery.Proofs.Text.Digits

namespace NeutralQuery

def Value.isSimple : Value → Bool
  | .null | .text _ | .bool _ | .int _ _ => true
  | _ => false

theorem Text.ofInt_eq (n : Int) :
    Text.ofInt n = (if n < 0 then "-" else "") ++ Text.ofNat n.natAbs := by
  rw [Text.ofInt]
  split
  · rfl
  · rw [String.empty_append]

theorem Text.ofInt_injective : Function.Injective Text.ofInt := by
  intro a b h
  rw [Text.ofInt_eq, Text.ofInt_eq] at h
  exact Text.signed_injective Text.digital_ofNat Text.ofNat_injective h

theorem Text.not_mem_ofInt {c : Char} (hc : c.isDigit = false) (hm : c ≠ '-') (n : Int) :
    c ∉ (Text.ofInt n).toList := by
  have hnat := (Text.digital_ofNat n.natAbs).not_mem hc
  rw [Text.ofInt_eq]
  split
  · rw [String.toList_append, List.mem_append, not_or]
    exact ⟨fun h => hm (List.mem_singleton.1 h), hnat⟩
  · rwa [String.empty_append]

theorem IntKind.name_injective : Function.Injective IntKind.name := by
  intro a b h
  revert h
  cases a <;> cases b <;> decide

namespace Memory

/-- The kinds of simple values. -/
def simpleKinds : List String :=
  ["<nil>", "string", "bool", "int", "int8", "int16", "int32", "int64", "uint", "uint8", "uint16",
    "uint32", "uint64"]

/-- A key begins here: a kind with its colon. -/
def opensKey (cs : List Char) : Bool :=
  simpleKinds.any fun kind => (kind ++ ":").toList.isPrefixOf cs

/-- Somewhere a bar is followed by a kind. -/
def divides : List Char → Bool
  | [] => false
  | c :: cs => (c == '|' && opensKey cs) || divides cs

/-- A value that cannot be taken for several keys. -/
def isWhole : Value → Bool
  | .text s => !divides s.toList
  | _ => true

def writeKey (v : Value) : List Char := (valueKey v).toList

def writeKeys (keys : List Value) : List Char := keys.flatMap fun v => writeKey v ++ ['|']

theorem writeKeys_cons (v : Value) (keys : List Value) :
    writeKeys (v :: keys) = writeKey v ++ '|' :: writeKeys keys := by
  simp [writeKeys]

theorem writeKeys_append (left right : List Value) :
    writeKeys (left ++ right) = writeKeys left ++ writeKeys right :=
  List.flatMap_append

theorem groupId_toList (paths : List String) (row : Row) :
    (groupId paths row).toList = writeKeys (paths.map row.get) := by
  rw [groupId, Group.ofRow, String.toList_intercalate, String.toList_empty, Text.intercalate_nil,
    writeKeys]
  simp [List.flatMap_def, writeKey, Function.comp_def]

theorem bar_not_mem_kind (hk : kind ∈ simpleKinds) : '|' ∉ (kind ++ ":").toList := by
  revert kind
  decide

theorem opensKey_append_bar (cs rest : List Char) : opensKey (cs ++ '|' :: rest) = opensKey cs := by
  rw [opensKey, opensKey, Bool.eq_iff_iff, List.any_eq_true, List.any_eq_true]
  refine exists_congr fun kind => and_congr_right fun hk => ?_
  rw [List.isPrefixOf_iff_prefix, List.isPrefixOf_iff_prefix]
  constructor
  · intro h
    have hbar : cs ++ ['|'] <+: cs ++ '|' :: rest := ⟨rest, by simp⟩
    have hnot : ¬cs ++ ['|'] <+: (kind ++ ":").toList := by
      intro hp
      exact bar_not_mem_kind hk (hp.subset (List.mem_append_right cs List.mem_cons_self))
    rcases List.prefix_or_prefix_of_prefix h hbar with hp | hp
    · rcases List.prefix_concat_iff.1 hp with he | hp
      · exact absurd (he ▸ List.prefix_refl _) hnot
      · exact hp
    · exact absurd hp hnot
  · intro h
    exact h.trans (List.prefix_append cs _)

theorem opensKey_of_divides (h : divides (before ++ '|' :: after) = false) :
    opensKey after = false := by
  induction before with
  | nil =>
    rw [List.nil_append, divides, Bool.or_eq_false_iff, Bool.and_eq_false_iff] at h
    exact h.1.resolve_left (by decide)
  | cons c before ih =>
    rw [List.cons_append, divides, Bool.or_eq_false_iff] at h
    exact ih h.2

theorem divides_append_left {before : List Char} (hb : '|' ∉ before) (cs : List Char) :
    divides (before ++ cs) = divides cs := by
  induction before with
  | nil => rfl
  | cons c before ih =>
    obtain ⟨hc, hrest⟩ := List.ne_and_not_mem_of_not_mem_cons hb
    have hne : (c == '|') = false := beq_eq_false_iff_ne.2 hc.symm
    rw [List.cons_append, divides, hne, Bool.false_and, Bool.false_or, ih hrest]

theorem divides_of_not_mem {cs : List Char} (h : '|' ∉ cs) : divides cs = false := by
  have happend := divides_append_left h []
  rwa [List.append_nil] at happend

variable {v w : Value}

theorem writeKey_eq (hv : v.isSimple = true) :
    writeKey v = (v.kindName ++ ":").toList ++ v.plain.toList := by
  have hkey : valueKey v = v.kindName ++ ":" ++ v.plain := by
    cases v with
    | rawText _ => cases hv
    | _ => rfl
  rw [writeKey, hkey, String.toList_append]

theorem kindName_mem (hv : v.isSimple = true) : v.kindName ∈ simpleKinds := by
  cases v with
  | null | text _ | bool _ => simp [Value.kindName, simpleKinds]
  | int kind n => cases kind <;> simp [Value.kindName, IntKind.name, simpleKinds]
  | _ => cases hv

theorem opensKey_writeKey (hv : v.isSimple = true) (rest : List Char) :
    opensKey (writeKey v ++ rest) = true := by
  apply List.any_eq_true.2
  refine ⟨v.kindName, kindName_mem hv, ?_⟩
  rw [List.isPrefixOf_iff_prefix, writeKey_eq hv, List.append_assoc]
  exact List.prefix_append _ _

theorem divides_writeKey (hv : v.isSimple = true) (hw : isWhole v = true) :
    divides (writeKey v) = false := by
  rw [writeKey_eq hv, divides_append_left (bar_not_mem_kind (kindName_mem hv))]
  cases v with
  | null => decide
  | text s => simpa [isWhole, Value.plain] using hw
  | bool b => cases b <;> decide
  | int kind n =>
    rw [Value.plain]
    exact divides_of_not_mem (Text.not_mem_ofInt (by decide) (by decide) n)
  | _ => cases hv

theorem colon_not_mem_kind (hk : kind ∈ simpleKinds) : ':' ∉ kind.toList := by
  revert kind
  decide

theorem writeKey_injective (hv : v.isSimple = true) (hw : w.isSimple = true)
    (h : writeKey v = writeKey w) : v = w := by
  have hcut (u : Value) (hu : u.isSimple = true) :
      Text.splitChars ':' (writeKey u) =
        u.kindName.toList :: Text.splitChars ':' u.plain.toList := by
    have hcolon : writeKey u = u.kindName.toList ++ ':' :: u.plain.toList := by
      rw [writeKey_eq hu, String.toList_append, List.append_assoc]
      rfl
    rw [hcolon, Text.splitChars_append (colon_not_mem_kind (kindName_mem hu))]
  have hparts := hcut v hv
  rw [h, hcut w hw] at hparts
  have hkind : v.kindName = w.kindName := String.toList_inj.1 (List.cons.inj hparts).1.symm
  have hplain : v.plain = w.plain := by
    rw [writeKey_eq hv, writeKey_eq hw, hkind] at h
    exact String.toList_inj.1 (List.append_cancel_left h)
  cases v with
  | null =>
    cases w with
    | null => rfl
    | text _ | bool _ => simp [Value.kindName] at hkind
    | int l _ => cases l <;> simp [Value.kindName, IntKind.name] at hkind
    | _ => cases hw
  | text s =>
    cases w with
    | text t => exact congrArg Value.text (by simpa [Value.plain] using hplain)
    | null | bool _ => simp [Value.kindName] at hkind
    | int l _ => cases l <;> simp [Value.kindName, IntKind.name] at hkind
    | _ => cases hw
  | bool b =>
    cases w with
    | bool c =>
      cases b <;> cases c
      · rfl
      · exact absurd hplain (by decide)
      · exact absurd hplain (by decide)
      · rfl
    | null | text _ => simp [Value.kindName] at hkind
    | int l _ => cases l <;> simp [Value.kindName, IntKind.name] at hkind
    | _ => cases hw
  | int k n =>
    cases w with
    | int l m =>
      have hn : n = m := Text.ofInt_injective (by simpa [Value.plain] using hplain)
      rw [IntKind.name_injective hkind, hn]
    | null | text _ | bool _ => cases k <;> simp [Value.kindName, IntKind.name] at hkind
    | _ => cases hw
  | _ => cases hv

/-- The rest of an identity: nothing more, or a further key. -/
def Continues (cs : List Char) : Prop := cs = [] ∨ opensKey cs = true

theorem writeKey_append_inj {rest rest' : List Char} (hv : divides (writeKey v) = false)
    (hw : divides (writeKey w) = false) (hr : Continues rest) (hr' : Continues rest')
    (h : writeKey v ++ '|' :: rest = writeKey w ++ '|' :: rest') :
    writeKey v = writeKey w ∧ rest = rest' := by
  -- If one key were longer, the bar behind the other would be a bar inside it, before a kind.
  have hshort {a b x y z : List Char} (hb : divides b = false) (hx : Continues x)
      (hlong : b = a ++ z) (he : '|' :: x = z ++ '|' :: y) : z = [] := by
    cases z with
    | nil => rfl
    | cons c z =>
      rw [List.cons_append] at he
      obtain ⟨rfl, rfl⟩ := List.cons.inj he
      rcases hx with hx | hx
      · exact absurd hx (List.append_ne_nil_of_right_ne_nil _ (List.cons_ne_nil _ _))
      · rw [opensKey_append_bar, opensKey_of_divides (hlong ▸ hb)] at hx
        cases hx
  rcases List.append_eq_append_iff.1 h with ⟨z, hz, he⟩ | ⟨z, hz, he⟩
  · have hnil := hshort hw hr hz he
    subst hnil
    rw [List.append_nil] at hz
    exact ⟨hz.symm, (List.cons.inj he).2⟩
  · have hnil := hshort hv hr' hz he
    subst hnil
    rw [List.append_nil] at hz
    exact ⟨hz, (List.cons.inj he).2.symm⟩

/-- Simple values none of which can be taken for several keys. -/
def AllWhole (keys : List Value) : Prop := ∀ v ∈ keys, v.isSimple = true ∧ isWhole v = true

theorem AllWhole.continues {keys : List Value} (hk : AllWhole keys) {rest : List Char}
    (hr : Continues rest) : Continues (writeKeys keys ++ rest) := by
  cases keys with
  | nil => exact hr
  | cons v keys =>
    rw [writeKeys_cons, List.append_assoc]
    exact .inr (opensKey_writeKey (hk v List.mem_cons_self).1 _)

theorem writeKeys_append_inj {left left' : List Value} {rest rest' : List Char}
    (hl : AllWhole left) (hl' : AllWhole left') (hlength : left.length = left'.length)
    (hr : Continues rest) (hr' : Continues rest')
    (h : writeKeys left ++ rest = writeKeys left' ++ rest') : left = left' ∧ rest = rest' := by
  induction left generalizing left' with
  | nil =>
    cases left' with
    | nil => exact ⟨rfl, h⟩
    | cons w left' => cases hlength
  | cons v left ih =>
    cases left' with
    | nil => cases hlength
    | cons w left' =>
      obtain ⟨hv, hleft⟩ := List.forall_mem_cons.1 hl
      obtain ⟨hw, hleft'⟩ := List.forall_mem_cons.1 hl'
      rw [writeKeys_cons, writeKeys_cons, List.append_assoc, List.append_assoc] at h
      obtain ⟨hkey, hrest⟩ := writeKey_append_inj (divides_writeKey hv.1 hv.2)
        (divides_writeKey hw.1 hw.2) (AllWhole.continues hleft hr)
        (AllWhole.continues hleft' hr') h
      obtain ⟨rfl, hmore⟩ := ih hleft hleft' (Nat.succ.inj hlength) hrest
      exact ⟨by rw [writeKey_injective hv.1 hw.1 hkey], hmore⟩

theorem append_writeKey_inj {before before' : List Char} (hv : v.isSimple = true ∧ isWhole v = true)
    (hw : w.isSimple = true ∧ isWhole w = true)
    (h : before ++ '|' :: writeKey v = before' ++ '|' :: writeKey w) :
    before = before' ∧ v = w := by
  -- The shorter text is followed by a bar and a key, which would stand inside the other key.
  have hshort {z : List Char} {u t : Value} (hu : u.isSimple = true ∧ isWhole u = true)
      (ht : t.isSimple = true) (he : '|' :: writeKey u = z ++ '|' :: writeKey t) : z = [] := by
    cases z with
    | nil => rfl
    | cons c z =>
      rw [List.cons_append] at he
      have hinside := divides_writeKey hu.1 hu.2
      rw [(List.cons.inj he).2] at hinside
      have hopens := opensKey_writeKey ht []
      rw [List.append_nil, opensKey_of_divides hinside] at hopens
      cases hopens
  rcases List.append_eq_append_iff.1 h with ⟨z, hz, he⟩ | ⟨z, hz, he⟩
  · have hnil := hshort hv hw.1 he
    subst hnil
    rw [List.append_nil] at hz
    exact ⟨hz.symm, writeKey_injective hv.1 hw.1 (List.cons.inj he).2⟩
  · have hnil := hshort hw hv.1 he
    subst hnil
    rw [List.append_nil] at hz
    exact ⟨hz, writeKey_injective hv.1 hw.1 (List.cons.inj he).2.symm⟩

theorem cons_writeKeys (keys : List Value) :
    '|' :: writeKeys keys = (keys.flatMap fun v => '|' :: writeKey v) ++ ['|'] := by
  induction keys with
  | nil => rfl
  | cons v keys ih =>
    rw [writeKeys_cons, ih, List.flatMap_cons, List.append_assoc, List.cons_append]

theorem append_writeKeys_inj {before before' : List Char} {right right' : List Value}
    (hr : AllWhole right) (hr' : AllWhole right') (hlength : right.length = right'.length)
    (h : before ++ '|' :: writeKeys right = before' ++ '|' :: writeKeys right') :
    before = before' ∧ right = right' := by
  rw [cons_writeKeys, cons_writeKeys, ← List.append_assoc, ← List.append_assoc] at h
  replace h := List.append_cancel_right h
  induction right using List.reverseRecOn generalizing right' with
  | nil =>
    cases List.eq_nil_of_length_eq_zero hlength.symm
    exact ⟨List.append_cancel_right h, rfl⟩
  | append_singleton right v ih =>
    obtain rfl | ⟨right', w, rfl⟩ := List.eq_nil_or_concat right'
    · simp at hlength
    · rw [List.concat_eq_append] at hr' hlength h ⊢
      obtain ⟨hright, hv⟩ := List.forall_mem_append.1 hr
      obtain ⟨hright', hw⟩ := List.forall_mem_append.1 hr'
      rw [List.flatMap_append, List.flatMap_append, List.flatMap_singleton, List.flatMap_singleton,
        ← List.append_assoc, ← List.append_assoc] at h
      obtain ⟨hrest, rfl⟩ := append_writeKey_inj (hv v (List.mem_singleton_self v))
        (hw w (List.mem_singleton_self w)) h
      obtain ⟨hbefore, rfl⟩ := ih hright hright' (by simpa using hlength) hrest
      exact ⟨hbefore, rfl⟩

theorem writeKeys_inj {keys keys' : List Value} {free : Nat} (hlength : keys.length = keys'.length)
    (hs : ∀ v ∈ keys, v.isSimple = true) (hs' : ∀ v ∈ keys', v.isSimple = true)
    (hw : ∀ v ∈ keys.eraseIdx free, isWhole v = true)
    (hw' : ∀ v ∈ keys'.eraseIdx free, isWhole v = true) (h : writeKeys keys = writeKeys keys') :
    keys = keys' := by
  by_cases hf : free < keys.length
  · have hf' : free < keys'.length := hlength ▸ hf
    rw [List.eraseIdx_eq_take_drop_succ] at hw hw'
    obtain ⟨hleft, hright⟩ := List.forall_mem_append.1 hw
    obtain ⟨hleft', hright'⟩ := List.forall_mem_append.1 hw'
    have hcut (vs : List Value) (hi : free < vs.length) :
        writeKeys vs = writeKeys (vs.take free) ++
          (writeKey vs[free] ++ '|' :: writeKeys (vs.drop (free + 1))) := by
      rw [← writeKeys_cons, ← List.drop_eq_getElem_cons hi, ← writeKeys_append,
        List.take_append_drop]
    have hwhole (vs part : List Value) (hvs : ∀ v ∈ vs, v.isSimple = true)
        (hsub : part ⊆ vs) (hp : ∀ v ∈ part, isWhole v = true) : AllWhole part :=
      fun v hm => ⟨hvs v (hsub hm), hp v hm⟩
    rw [hcut keys hf, hcut keys' hf'] at h
    obtain ⟨hl, hrest⟩ := writeKeys_append_inj
      (hwhole keys _ hs (List.take_subset _ _) hleft)
      (hwhole keys' _ hs' (List.take_subset _ _) hleft') (by simp [hlength])
      (.inr (opensKey_writeKey (hs _ (List.getElem_mem hf)) _))
      (.inr (opensKey_writeKey (hs' _ (List.getElem_mem hf')) _)) h
    obtain ⟨hmid, hr⟩ := append_writeKeys_inj
      (hwhole keys _ hs (List.drop_subset _ _) hright)
      (hwhole keys' _ hs' (List.drop_subset _ _) hright') (by simp [hlength]) hrest
    have hkey := writeKey_injective (hs _ (List.getElem_mem hf)) (hs' _ (List.getElem_mem hf')) hmid
    rw [← List.take_append_drop free keys, ← List.take_append_drop free keys',
      List.drop_eq_getElem_cons hf, List.drop_eq_getElem_cons hf', hl, hkey, hr]
  · rw [Nat.not_lt] at hf
    rw [List.eraseIdx_of_length_le hf] at hw
    rw [List.eraseIdx_of_length_le (hlength ▸ hf)] at hw'
    refine (writeKeys_append_inj (fun v hm => ⟨hs v hm, hw v hm⟩) (fun v hm => ⟨hs' v hm, hw' v hm⟩)
      hlength (.inl rfl) (.inl rfl) ?_).1
    rw [List.append_nil, List.append_nil, h]

section Tuples

variable {paths : List String} {rows : List Row}

/-- The columns hold simple values, and in all but one of them whole ones. -/
structure Legible (paths : List String) (free : Nat) (rows : List Row) : Prop where
  simple : ∀ row ∈ rows, ∀ path ∈ paths, (row.get path).isSimple = true
  whole : ∀ row ∈ rows, ∀ path ∈ paths.eraseIdx free, isWhole (row.get path) = true

theorem Legible.groupId_inj (h : Legible paths free rows) (ha : a ∈ rows) (hb : b ∈ rows) :
    groupId paths a = groupId paths b ↔ paths.map a.get = paths.map b.get := by
  constructor
  · intro hid
    have hsimple (row : Row) (hm : row ∈ rows) : ∀ v ∈ paths.map row.get, v.isSimple = true :=
      List.forall_mem_map.2 (h.simple row hm)
    have hwhole (row : Row) (hm : row ∈ rows) :
        ∀ v ∈ (paths.map row.get).eraseIdx free, isWhole v = true := by
      rw [List.eraseIdx_map]
      exact List.forall_mem_map.2 (h.whole row hm)
    refine writeKeys_inj (by simp) (hsimple a ha) (hsimple b hb) (hwhole a ha) (hwhole b hb) ?_
    rw [← groupId_toList, ← groupId_toList, hid]
  · intro hkeys
    rw [← String.toList_inj, groupId_toList, groupId_toList, hkeys]

theorem together_iff (ha : a ∈ rows) (hb : b ∈ rows) :
    (∃ g ∈ groupRows paths rows, a ∈ g.rows ∧ b ∈ g.rows) ↔ groupId paths a = groupId paths b := by
  have hp : Partition paths rows (groupRows paths rows) :=
    groupRows_partition (.inr (List.ne_nil_of_mem ha))
  constructor
  · rintro ⟨g, hg, hag, hbg⟩
    rw [hp.members g hg, List.mem_filter, beq_iff_eq] at hag hbg
    exact hag.2.trans hbg.2.symm
  · intro hid
    obtain ⟨g, hg, hga⟩ := List.mem_map.1 (hp.covers a ha)
    refine ⟨g, hg, ?_⟩
    rw [hp.members g hg, List.mem_filter, List.mem_filter, beq_iff_eq, beq_iff_eq, ← hid]
    exact ⟨⟨ha, hga.symm⟩, hb, hga.symm⟩

theorem Partition.id_of_keys (hp : Partition paths rows groups) (hg : g ∈ groups) :
    ∃ row ∈ rows, groupId paths row = g.id ∧ g.keys = paths.map row.get := by
  obtain ⟨first, rest, hrows, hkeys⟩ := hp.keys g hg
  have hfirst : first ∈ g.rows := hrows ▸ List.mem_cons_self
  rw [hp.members g hg, List.mem_filter, beq_iff_eq] at hfirst
  exact ⟨first, hfirst.1, hfirst.2, hkeys⟩

theorem Legible.length_groupRows (h : Legible paths free rows) (hne : paths ≠ [] ∨ rows ≠ []) :
    (groupRows paths rows).length = Set.ncard {t | ∃ row ∈ rows, t = paths.map row.get} := by
  have hp := groupRows_partition hne
  have hnodup : ((groupRows paths rows).map (·.keys)).Nodup := by
    refine List.Nodup.map_on (fun g hg g' hg' hk => ?_) (List.Nodup.of_map _ hp.nodup)
    obtain ⟨row, hrow, hid, hkeys⟩ := hp.id_of_keys hg
    obtain ⟨row', hrow', hid', hkeys'⟩ := hp.id_of_keys hg'
    have hsame : g.id = g'.id := by
      rw [← hid, ← hid', h.groupId_inj hrow hrow', ← hkeys, ← hkeys', hk]
    exact List.inj_on_of_nodup_map hp.nodup hg hg' hsame
  have hset : {t | ∃ row ∈ rows, t = paths.map row.get} =
      {t | t ∈ (groupRows paths rows).map (·.keys)} := by
    ext t
    constructor
    · rintro ⟨row, hrow, rfl⟩
      obtain ⟨g, hg, hid⟩ := List.mem_map.1 (hp.covers row hrow)
      obtain ⟨first, hfirst, hidf, hkeys⟩ := hp.id_of_keys hg
      refine List.mem_map.2 ⟨g, hg, hkeys.trans ?_⟩
      rw [← h.groupId_inj hfirst hrow, hidf, hid]
    · intro hm
      obtain ⟨g, hg, rfl⟩ := List.mem_map.1 hm
      obtain ⟨first, hfirst, _, hkeys⟩ := hp.id_of_keys hg
      exact ⟨first, hfirst, hkeys⟩
  classical
  rw [hset, ← List.length_map (f := (·.keys)), ← List.toFinset_card_of_nodup hnodup,
    ← Set.ncard_coe_finset, List.coe_toFinset]

theorem length_groupRows_nil (rows : List Row) : (groupRows [] rows).length = 1 := by
  by_cases hr : rows = []
  · rw [hr]
    rfl
  · have h : Legible [] 0 rows := ⟨fun _ _ _ hp => (nomatch hp), fun _ _ _ hp => (nomatch hp)⟩
    have hone : {t : List Value | ∃ row ∈ rows, t = ([] : List String).map row.get} = {[]} := by
      obtain ⟨row, hrow⟩ := List.exists_mem_of_ne_nil rows hr
      ext t
      exact ⟨fun ⟨_, _, ht⟩ => ht, fun ht => ⟨row, hrow, ht⟩⟩
    rw [h.length_groupRows (.inr hr), hone, Set.ncard_singleton]

/-- Where at most one column holds texts that look like several keys, two rows are in one group
exactly when they agree on every key, and there are as many groups as tuples of keys. -/
theorem groups_are_tuples {keys : List GroupKey} (h : Legible (keys.map (·.path)) free rows) :
    (∀ a ∈ rows, ∀ b ∈ rows,
      (∃ g ∈ groupRows (keys.map (·.path)) rows, a ∈ g.rows ∧ b ∈ g.rows) ↔
        ∀ key ∈ keys, a.get key.path = b.get key.path) ∧
    (keys ≠ [] ∨ rows ≠ [] → (groupRows (keys.map (·.path)) rows).length =
      Set.ncard {t | ∃ row ∈ rows, t = keys.map fun key => row.get key.path}) ∧
    (keys = [] → (groupRows (keys.map (·.path)) rows).length = 1) ∧
    ∀ registry accumulators out, group registry keys accumulators rows = .ok out →
      out.length = (groupRows (keys.map (·.path)) rows).length := by
  refine ⟨fun a ha b hb => ?_, fun hne => ?_, fun hnil => ?_, fun registry accs out hout => ?_⟩
  · rw [together_iff ha hb, h.groupId_inj ha hb, List.map_inj_left, List.forall_mem_map]
  · rw [h.length_groupRows (hne.imp_left fun hk => by simpa using hk)]
    simp only [List.map_map, Function.comp_def]
  · rw [hnil]
    exact length_groupRows_nil rows
  · exact (forall₂_of_mapM hout).length_eq.symm

end Tuples

end Memory

namespace Sample

def labelled (a b : Value) : Row := [("id", .ofInt64 1), ("a", a), ("b", b)]

/-- Texts with bars in both columns. Only the first column has one before a kind. -/
def barred : List Row :=
  [labelled (.text "x|string:y") (.text "z|y"), labelled (.text "x") (.text "y|z"),
    labelled .null (.bool true), [("b", .bool true)], labelled (.text "<nil>") (.bool true)]

/-- A bar before a kind in each column. -/
def crossed : List Row :=
  [labelled (.text "x|string:y") (.text "z"), labelled (.text "x") (.text "y|string:z")]

end Sample

theorem Memory.groups_are_tuples_barred :
    Legible ["a", "b"] 0 Sample.barred ∧
      (∃ g ∈ groupRows ["a", "b"] Sample.barred,
        Sample.labelled .null (.bool true) ∈ g.rows ∧ [("b", .bool true)] ∈ g.rows) ∧
      (¬∃ g ∈ groupRows ["a", "b"] Sample.barred,
        Sample.labelled (.text "x|string:y") (.text "z|y") ∈ g.rows ∧
          Sample.labelled (.text "x") (.text "y|z") ∈ g.rows) ∧
      (groupRows ["a", "b"] Sample.barred).length =
        Set.ncard {t | ∃ row ∈ Sample.barred, t = [row.get "a", row.get "b"]} := by
  have hl : Legible ["a", "b"] 0 Sample.barred := by constructor <;> decide
  have hkeys : Legible ([⟨"a", .string⟩, ⟨"b", .object⟩].map GroupKey.path) 0 Sample.barred := hl
  obtain ⟨htogether, hcount, _⟩ := groups_are_tuples hkeys
  refine ⟨hl, (htogether _ (by simp [Sample.barred]) _ (by simp [Sample.barred])).2 ?_, ?_,
    hcount (.inl (List.cons_ne_nil _ _))⟩
  · exact List.forall_mem_cons.2 ⟨rfl, List.forall_mem_cons.2 ⟨rfl, fun _ h => nomatch h⟩⟩
  · intro hsame
    have hfirst := (htogether _ (by simp [Sample.barred]) _ (by simp [Sample.barred])).1 hsame _
      List.mem_cons_self
    have htext : Value.text "x|string:y" = .text "x" := hfirst
    simp at htext

theorem Memory.crossed_share_group :
    Sample.labelled (.text "x|string:y") (.text "z") ∈ Sample.crossed ∧
    Sample.labelled (.text "x") (.text "y|string:z") ∈ Sample.crossed ∧
    (Sample.labelled (.text "x|string:y") (.text "z")).get "a" ≠
      (Sample.labelled (.text "x") (.text "y|string:z")).get "a" ∧
    (groupRows ["a", "b"] Sample.crossed).length = 1 ∧
    group .standard [⟨"a", .string⟩, ⟨"b", .string⟩] [Sample.people] Sample.crossed =
      .ok [[("a", .text "x|string:y"), ("b", .text "z"), ("count_id", .ofInt64 2)]] := by
  have hne : Value.text "x|string:y" ≠ .text "x" := by simp
  exact ⟨List.mem_cons_self, List.mem_cons_of_mem _ List.mem_cons_self, hne, rfl, rfl⟩

end NeutralQuery
