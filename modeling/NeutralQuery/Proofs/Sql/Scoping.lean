import NeutralQuery.Proofs.Plan.Rendering
import NeutralQuery.Proofs.Sql.Outputs
import NeutralQuery.Proofs.Sql.Spans

namespace NeutralQuery.Sql

/-- An alias that ends in a number. -/
def Numbered (n : Nat) (a : String) : Prop := ∃ base, a = base ++ "_" ++ Text.ofNat n

theorem not_mem_ofNat (hc : c.isDigit = false) (n : Nat) : c ∉ (Text.ofNat n).toList := by
  rw [Text.ofNat, String.toList_ofList]
  intro hm
  rw [Nat.isDigit_of_mem_toDigits (by decide) (by decide) hm] at hc
  cases hc

theorem eq_of_append_cons {as bs ds es : List Char} (hd : sep ∉ ds) (he : sep ∉ es)
    (h : as ++ sep :: ds = bs ++ sep :: es) : ds = es := by
  rcases List.append_eq_append_iff.1 h with ⟨cs, _, hcs⟩ | ⟨cs, _, hcs⟩ <;>
  · cases cs with
    | nil =>
      cases hcs
      rfl
    | cons c cs =>
      cases hcs
      simp at hd he

theorem Numbered.unique (h : Numbered n a) (h' : Numbered m a) : n = m := by
  obtain ⟨base, rfl⟩ := h
  obtain ⟨base', he⟩ := h'
  have hlist := congrArg String.toList he
  simp only [String.toList_append, List.append_assoc] at hlist
  have hdigits := eq_of_append_cons (not_mem_ofNat rfl n) (not_mem_ofNat rfl m) hlist
  exact Text.ofNat_injective (String.toList_inj.1 hdigits)

theorem Numbered.underscore_mem (h : Numbered n a) : '_' ∈ a.toList := by
  obtain ⟨base, rfl⟩ := h
  simp

namespace Expr

theorem text_column (a name : String) : (column a name).text = a ++ "." ++ name := rfl

theorem mem_text_within (a name : String) (path : List String) (last : String) (type : ScalarType) :
    '>' ∈ (within a name path last type).text.toList := by
  by_cases ht : type = .object
  · have htext : (within a name path last type).text =
        columnText a name ++ "".intercalate (path.map fun s => "->" ++ literal s) ++ "->" ++
          literal last := if_pos ht
    rw [htext]
    simp
  · have htext : (within a name path last type).text =
        "(" ++ (columnText a name ++ "".intercalate (path.map fun s => "->" ++ literal s)) ++
          "->>" ++ literal last ++ ")" ++ castSuffix type := if_neg ht
    rw [htext]
    simp

theorem mem_text_whole (a identity : String) : ' ' ∈ (whole a identity).text.toList := by
  have htext : (whole a identity).text = "CASE WHEN " ++ columnText a identity ++
      " IS NULL THEN NULL ELSE to_jsonb(" ++ a ++ ") END" := rfl
  rw [htext]
  simp

end Expr

/-- How the clauses around a subquery name its slots. -/
def slotRef (k : Nat) : String := "d." ++ Statement.slotName k

theorem slotRef_toList (k : Nat) :
    (slotRef k).toList = 'd' :: '.' :: '_' :: '_' :: 'c' :: (Text.ofNat k).toList := by
  simp [slotRef, Statement.slotName]

/-- No value of a table with a numbered alias is written like a slot. -/
theorem Expr.text_ne_slotRef {e : Expr} (h : Numbered n e.tableAlias) (k : Nat) :
    e.text ≠ slotRef k := by
  intro ht
  have hlist := congrArg String.toList ht
  rw [slotRef_toList] at hlist
  cases e with
  | column a name =>
    rw [Expr.text_column, String.toList_append, String.toList_append, List.append_assoc] at hlist
    have hunderscore : '_' ∈ a.toList := h.underscore_mem
    match hs : a.toList with
    | [] =>
      rw [hs] at hlist
      cases hlist
    | [c] =>
      rw [hs] at hlist hunderscore
      rw [(List.cons.inj hlist).1] at hunderscore
      simp at hunderscore
    | c :: c' :: cs =>
      rw [hs] at hlist
      have htail : cs ++ '.' :: name.toList = '_' :: '_' :: 'c' :: (Text.ofNat k).toList := by
        simpa using (List.cons.inj (List.cons.inj hlist).2).2
      have hdot : '.' ∈ cs ++ '.' :: name.toList := by simp
      rw [htail] at hdot
      simp [not_mem_ofNat] at hdot
  | within a name path last type =>
    have hm := mem_text_within a name path last type
    rw [hlist] at hm
    simp [not_mem_ofNat] at hm
  | whole a identity =>
    have hm := mem_text_whole a identity
    rw [hlist] at hm
    simp [not_mem_ofNat] at hm

namespace Frame

variable {f g : Frame}

theorem join_eq_ok (h : f.join n l = .ok (j, g)) :
    Numbered n j.tableAlias ∧ j.localExpr.tableAlias ∈ f.aliases ∧ g.root = f.root ∧
      g.joined = f.joined ++ [⟨l.path, j.tableAlias, l.target⟩] := by
  obtain ⟨e, he, heq⟩ := map_eq_ok h
  cases heq
  exact ⟨⟨_, rfl⟩, expr_alias he, rfl, rfl⟩

end Frame

/-- Joins that are numbered in order, each on a value of the tables before it. -/
inductive Chain : List String → Nat → List Join → Prop
  | nil : Chain before n []
  | cons {before : List String} {n : Nat} {j : Join} {joins : List Join}
      (hn : Numbered n j.tableAlias) (hl : j.localExpr.tableAlias ∈ before)
      (h : Chain (before ++ [j.tableAlias]) (n + 1) joins) : Chain before n (j :: joins)

theorem Frame.joinAll_chain {f g : Frame} {lookups : List Lookup}
    (h : f.joinAll n lookups = .ok (joins, g)) :
    Chain f.aliases n joins ∧ g.aliases = f.aliases ++ joins.map (·.tableAlias) ∧
      g.joined.map (·.path) = f.joined.map (·.path) ++ lookups.map (·.path) := by
  induction lookups generalizing f n joins with
  | nil =>
    cases h
    exact ⟨.nil, (List.append_nil _).symm, (List.append_nil _).symm⟩
  | cons l lookups ih =>
    rw [joinAll] at h
    split at h
    · cases h
    next j next hj =>
      obtain ⟨⟨js, last⟩, hjs, he⟩ := map_eq_ok h
      cases he
      obtain ⟨hnumbered, hlocal, hroot, hjoined⟩ := join_eq_ok hj
      obtain ⟨hchain, haliases, hpaths⟩ := ih hjs
      have hnext : next.aliases = f.aliases ++ [j.tableAlias] := by
        simp [aliases, hroot, hjoined]
      rw [hnext] at hchain haliases
      refine ⟨.cons hnumbered hlocal hchain, ?_, ?_⟩
      · rw [haliases, List.append_assoc]
        rfl
      · rw [hpaths, hjoined, List.map_append, List.append_assoc]
        rfl

namespace Chain

/-- Numbers that are given in order give aliases of their own. -/
theorem nodup (h : Chain before n joins) (hb : before.Nodup)
    (hn : ∀ a ∈ before, ∃ m < n, Numbered m a) :
    (before ++ joins.map (·.tableAlias)).Nodup ∧
      ∀ a ∈ before ++ joins.map (·.tableAlias), ∃ m, Numbered m a := by
  induction h with
  | nil =>
    rw [List.map_nil, List.append_nil]
    refine ⟨hb, ?_⟩
    intro a ha
    obtain ⟨m, _, hm⟩ := hn a ha
    exact ⟨m, hm⟩
  | @cons before n j joins hj hl h ih =>
    have hnew : j.tableAlias ∉ before := by
      intro hm
      obtain ⟨m, hlt, hm⟩ := hn _ hm
      have heq := hm.unique hj
      omega
    have hnodup : (before ++ [j.tableAlias]).Nodup := by
      apply hb.append (List.nodup_singleton _)
      rw [List.disjoint_singleton]
      exact hnew
    have hnumbered : ∀ a ∈ before ++ [j.tableAlias], ∃ m < n + 1, Numbered m a := by
      intro a ha
      rcases List.mem_append.1 ha with ha | ha
      · obtain ⟨m, hlt, hm⟩ := hn a ha
        exact ⟨m, by omega, hm⟩
      · rw [List.mem_singleton.1 ha]
        exact ⟨n, by omega, hj⟩
    have hrest := ih hnodup hnumbered
    rwa [List.append_assoc] at hrest

theorem local_mem (h : Chain before n (first ++ j :: rest)) :
    j.localExpr.tableAlias ∈ before ++ first.map (·.tableAlias) := by
  induction first generalizing before n with
  | nil =>
    cases h with
    | cons _ hl _ =>
      rw [List.map_nil, List.append_nil]
      exact hl
  | cons k first ih =>
    cases h with
    | cons _ _ h =>
      have hrest := ih h
      rwa [List.append_assoc] at hrest

end Chain

namespace Statement

open Sql.Span

variable {s : Statement}

theorem mem_foldl_addSlot {es slots : List Expr} (h : e ∈ es.foldl addSlot slots) :
    e ∈ slots ∨ e ∈ es := by
  induction es generalizing slots with
  | nil => exact .inl h
  | cons x es ih =>
    rcases ih h with hs | hs
    · rw [addSlot] at hs
      split at hs
      · exact .inl hs
      · rcases List.mem_append.1 hs with hs | hs
        · exact .inl hs
        · exact .inr (List.mem_singleton.1 hs ▸ List.mem_cons_self)
    · exact .inr (List.mem_cons_of_mem x hs)

theorem exists_mem_foldl_addSlot {es slots : List Expr}
    (h : (∃ x ∈ slots, x.text = e.text) ∨ e ∈ es) :
    ∃ x ∈ es.foldl addSlot slots, x.text = e.text := by
  induction es generalizing slots with
  | nil => exact h.resolve_right List.not_mem_nil
  | cons y es ih =>
    apply ih
    rw [addSlot]
    rcases h with ⟨x, hx, ht⟩ | he
    · refine .inl ⟨x, ?_, ht⟩
      split
      · exact hx
      · exact List.mem_append_left _ hx
    · rcases List.mem_cons.1 he with rfl | he
      · refine .inl ?_
        split
        · next hany =>
          obtain ⟨x, hx, ht⟩ := List.any_eq_true.1 hany
          exact ⟨x, hx, beq_iff_eq.1 ht⟩
        · exact ⟨e, List.mem_append_right _ List.mem_cons_self, rfl⟩
      · exact .inr he

theorem slotName_injective : Function.Injective slotName := by
  intro n m h
  have hlist := congrArg String.toList h
  simp only [slotName, String.toList_append, List.append_cancel_left_eq] at hlist
  exact Text.ofNat_injective (String.toList_inj.1 hlist)

theorem exposed_names (s : Statement) :
    s.exposed.map (·.1) = (List.range (s.slots.length + 1)).map slotName := by
  rw [exposed, List.map_cons, List.range_succ_eq_map, List.map_cons, List.map_map,
    List.mapIdx_eq_zipIdx_map, List.map_map]
  congr 1
  apply List.ext_getElem
  · simp
  · intro i _ _
    simp

theorem exposed_nodup (s : Statement) : (s.exposed.map (·.1)).Nodup := by
  rw [exposed_names]
  exact List.nodup_range.map slotName_injective

/-- With distinct rows, whatever the outer clauses name is a slot of that value. -/
theorem scope_slot (hd : s.distinct = true) (he : e ∈ s.outputs.flatMap Output.exprs) :
    ∃ k x, s.scope e = slotRef k ∧ (slotName k, x) ∈ s.exposed ∧ x.text = e.text := by
  have hslot : ∃ x ∈ s.slots, x.text = e.text := exists_mem_foldl_addSlot (.inr he)
  obtain ⟨x, hx, ht⟩ := hslot
  rw [scope, if_pos hd]
  cases hi : s.slots.findIdx? (·.text == e.text) with
  | none =>
    have hne := List.findIdx?_eq_none_iff.1 hi x hx
    rw [ht, beq_self_eq_true] at hne
    cases hne
  | some i =>
    obtain ⟨hlt, hi, _⟩ := List.findIdx?_eq_some_iff_getElem.1 hi
    refine ⟨i + 1, s.slots[i], rfl, ?_, beq_iff_eq.1 hi⟩
    rw [exposed]
    exact List.mem_cons_of_mem _ (List.mem_mapIdx.2 ⟨i, hlt, rfl⟩)

/-- The clauses outside the joined tables name values of the outputs. -/
theorem mem_outputs_of_outer (h : e ∈ values (s.selectionSpans ++ s.tailSpans)) :
    ∃ o ∈ s.outputs, e ∈ o.exprs := by
  rw [tailSpans, values_append, values_append, values_append, values_append] at h
  simp only [List.mem_append] at h
  simp only [outputs, List.mem_append]
  rcases h with h | ((h | h) | h) | h
  · obtain ⟨o, ho, he⟩ := mem_selectionSpans (fun _ => rfl) h
    exact ⟨o, .inl (.inl (.inl (.inr ho))), o.values_spans ▸ he⟩
  · exact ⟨.value e, .inl (.inl (.inr (List.mem_map_of_mem (mem_groupSpans h)))),
      List.mem_cons_self⟩
  · obtain ⟨o, ho, he⟩ := mem_havingSpans (fun _ => rfl) h
    exact ⟨o, .inl (.inr ho), o.values_spans ▸ he⟩
  · obtain ⟨o, ho, he⟩ := mem_orderSpans (fun _ => rfl) h
    exact ⟨o, .inr ho, o.values_spans ▸ he⟩
  · cases h

theorem mem_whereSpans (h : e ∈ values s.whereSpans) :
    ∃ c ∈ s.filters, ∃ o ∈ c.outputs, e ∈ o.exprs := by
  rw [whereSpans, filterTokens] at h
  cases hl : s.filters.getLast? with
  | none =>
    rw [hl] at h
    cases h
  | some c =>
    rw [hl] at h
    obtain ⟨o, ho, he⟩ := Condition.mem_values_spans.1 h
    exact ⟨c, List.mem_of_getLast? hl, o, ho, he⟩

/-- Conditions on joined rows that name no aggregate are written with the texts of their values. -/
theorem written_whereSpans (h : ∀ c ∈ s.filters, ∀ o ∈ c.outputs, o.isAggregate = false) :
    written Expr.text s.whereSpans = s.filterText := by
  rw [whereSpans, filterText_eq, Condition.written_tokens, filterTokens]
  cases hl : s.filters.getLast? with
  | none => rfl
  | some c =>
    apply Condition.written_congr
    intro o ho
    rw [rowOutput, h c (List.mem_of_getLast? hl) o ho]
    rfl

end Statement

namespace Statement

open Sql.Span

def aliases (s : Statement) : List String := s.rootAlias :: s.joins.map (·.tableAlias)

/-- What a statement names is in scope where it is named. -/
structure WellScoped (s : Statement) : Prop where
  /-- No two tables share an alias. -/
  aliases : s.aliases.Nodup
  /-- A join is on its own table and on the tables before it. -/
  joins : ∀ before j after, s.joins = before ++ j :: after → ∀ e ∈ values j.onSpans,
    e.tableAlias = j.tableAlias ∨ e.tableAlias ∈ s.rootAlias :: before.map (·.tableAlias)
  filter : ∀ e ∈ values s.whereSpans, e.tableAlias ∈ s.aliases
  source : ∀ e ∈ values s.sourceSpans, e.tableAlias ∈ s.aliases
  /-- Around a subquery only its slots are named, each of which is exposed once, as the value that
  it is named for. -/
  slots : s.distinct = true → ∀ e ∈ values (s.selectionSpans ++ s.tailSpans), ∃ k x,
    s.scope e = slotRef k ∧ (slotName k, x) ∈ s.exposed ∧ x.text = e.text ∧
      (s.exposed.map (·.1)).count (slotName k) = 1
  /-- Without a subquery there is nothing that looks like a slot. -/
  plain : s.distinct = false → ∀ e,
    e ∈ values (s.selectionSpans ++ s.tailSpans) ∨ e ∈ values s.sourceSpans →
      s.scope e = e.text ∧ e.tableAlias ∈ s.aliases ∧ ∀ k, s.scope e ≠ slotRef k

end Statement

namespace Statement.Of

open Sql.Span Compiler Compile

variable {st : Statement} {f : Frame} {q : Parsed} {raws : List String} {resolution : Resolution}
  {g : Grouping}

theorem rootAlias_eq (hst : st.Of mapping plan f) :
    st.rootAlias = (rootFrame mapping plan).root.tableAlias := by
  rw [hst.assembled]
  rfl

theorem root_aliases (hst : st.Of mapping plan f) :
    (rootFrame mapping plan).aliases = [st.rootAlias] := by
  rw [hst.rootAlias_eq]
  rfl

theorem chain (hst : st.Of mapping plan f) : Chain [st.rootAlias] 1 st.joins :=
  hst.root_aliases ▸ (Frame.joinAll_chain hst.joins).1

theorem aliases_eq (hst : st.Of mapping plan f) : st.aliases = f.aliases := by
  rw [(Frame.joinAll_chain hst.joins).2.1, hst.root_aliases]
  rfl

theorem aliases_nodup (hst : st.Of mapping plan f) :
    st.aliases.Nodup ∧ ∀ a ∈ st.aliases, ∃ n, Numbered n a := by
  apply hst.chain.nodup (List.nodup_singleton _)
  intro a ha
  rw [List.mem_singleton.1 ha, hst.rootAlias_eq]
  have hzero : "_" ++ Text.ofNat 0 = "_0" := rfl
  exact ⟨0, by omega, mapping.aliasBase plan.root, by rw [String.append_assoc, hzero]; rfl⟩

theorem wholeItems_own (hst : st.Of mapping plan f) (hi : i ∈ wholeItems f plan) :
    f.Owns i.output := by
  rcases List.mem_append.1 hi with hi | hi
  · obtain ⟨field, _, rfl⟩ := List.mem_map.1 hi
    intro e he
    rw [List.mem_singleton.1 he]
    exact List.mem_cons_self
  · obtain ⟨l, hl, rfl⟩ := List.mem_map.1 hi
    intro e he
    rw [List.mem_singleton.1 he]
    have hpath : l.path ∈ f.joined.map (·.path) := by
      rw [(Frame.joinAll_chain hst.joins).2.2]
      exact List.mem_append_right _ (List.mem_map_of_mem hl)
    obtain ⟨t, ht, hpath⟩ := List.mem_map.1 hpath
    have hm : t ∈ f.joined.filter (·.path == l.path) :=
      List.mem_filter.2 ⟨ht, beq_iff_eq.2 hpath⟩
    have hu := List.getLast?_eq_some_getLast (List.ne_nil_of_mem hm)
    have hjoined := (List.mem_filter.1 (List.mem_of_getLast? hu)).1
    simp only [hu, Option.map_some, Option.getD_some]
    exact List.mem_cons_of_mem _ (List.mem_map_of_mem hjoined)

theorem groupBy_own (hst : st.Of mapping plan f) (he : e ∈ st.groupBy) : f.Owns (.value e) := by
  obtain ⟨k, _, hk⟩ := exists_of_mapM hst.groupBy he
  exact f.owns_value hk

theorem selected_own (hst : st.Of mapping plan f) (ho : o ∈ st.selected) : f.Owns o := by
  rcases hst.selected_cases ho with rfl | ⟨e, he, rfl⟩ | ⟨_, _, i, hi, rfl⟩ | ⟨path, _, hout⟩
  · exact fun _ he => nomatch he
  · exact hst.groupBy_own he
  · exact hst.wholeItems_own hi
  · exact outputAt_owns hout

theorem having_own (hst : st.Of mapping plan f) (ho : o ∈ st.having.elim [] Condition.outputs) :
    f.Owns o := by
  have hh := hst.having
  rw [havingOf] at hh
  split at hh
  · obtain ⟨c, hc, he⟩ := map_eq_ok hh
    rw [he] at ho
    exact ofFilter_owns hc ho
  · rw [← Except.ok.inj hh] at ho
    cases ho

theorem filters_own (hst : st.Of mapping plan f) (hc : d ∈ st.filters) (ho : o ∈ d.outputs) :
    f.Owns o := by
  obtain ⟨t, _, ht⟩ := exists_of_mapM hst.filters hc
  exact ofFilter_owns ht ho

theorem outputs_own (hst : st.Of mapping plan f) (ho : o ∈ st.outputs) : f.Owns o := by
  simp only [outputs, List.mem_append] at ho
  rcases ho with (((ho | ho) | ho) | ho) | ho
  · obtain ⟨c, hc, hm⟩ := List.mem_flatMap.1 (List.mem_filter.1 ho).1
    exact hst.filters_own hc hm
  · exact hst.selected_own ho
  · obtain ⟨e, he, rfl⟩ := List.mem_map.1 ho
    exact hst.groupBy_own he
  · exact hst.having_own ho
  · obtain ⟨path, _, hout⟩ := hst.orderBy_cases ho
    exact outputAt_owns hout

/-- Conditions on joined rows name no aggregate. -/
theorem filters_plain (hst : st.Of mapping plan f)
    (h : Compiles c root spec countOnly plan q raws resolution g) (hc : d ∈ st.filters)
    (ho : o ∈ d.outputs) : o.isAggregate = false := by
  obtain ⟨t, ht, hd⟩ := exists_of_mapM hst.filters hc
  rw [filters_ofPlan] at ht
  obtain ⟨p, hp, cond, hcond, hm⟩ := (ofFilter_outputs hd).1 ho
  obtain ⟨ref, o', hfind, hfield, houtputs⟩ := condition_outputs hcond
  rcases (houtputs o).1 hm with rfl | ⟨e, _, rfl⟩
  · cases h.emits (Plan.mem_kept.1 ht) with
    | keep htyped =>
      obtain ⟨ref', hfind', hplain⟩ := h.keep_found htyped hp
      cases hfind.symm.trans hfind'
      rw [fieldOutput, hplain, if_neg Bool.false_ne_true] at hfield
      obtain ⟨e, _, rfl⟩ := map_eq_ok hfield
      rfl
  · rfl

theorem joins_alias (hst : st.Of mapping plan f) {before after : List Join}
    (hj : st.joins = before ++ j :: after) (he : e ∈ values j.onSpans) :
    e.tableAlias = j.tableAlias ∨ e.tableAlias ∈ st.rootAlias :: before.map (·.tableAlias) := by
  have hvalues : values j.onSpans = [.column j.tableAlias j.foreign, j.localExpr] := by
    rw [Join.onSpans]
    cases j.isArray <;> rfl
  have hchain := hst.chain
  rw [hj] at hchain
  rw [hvalues] at he
  rcases List.mem_cons.1 he with rfl | he
  · exact .inl rfl
  · rw [List.mem_singleton.1 he]
    exact .inr hchain.local_mem

theorem where_alias (hst : st.Of mapping plan f) (he : e ∈ values st.whereSpans) :
    e.tableAlias ∈ st.aliases := by
  obtain ⟨c, hc, o, ho, hm⟩ := mem_whereSpans he
  rw [hst.aliases_eq]
  exact hst.filters_own hc ho e hm

theorem outer_alias (hst : st.Of mapping plan f)
    (he : e ∈ values (st.selectionSpans ++ st.tailSpans)) : e.tableAlias ∈ st.aliases := by
  obtain ⟨o, ho, hm⟩ := mem_outputs_of_outer he
  rw [hst.aliases_eq]
  exact hst.outputs_own ho e hm

theorem tables_alias (hst : st.Of mapping plan f) (he : e ∈ values st.tableSpans) :
    e.tableAlias ∈ st.aliases := by
  rw [tableSpans, values_append, values_append, List.mem_append, List.mem_append] at he
  rcases he with (he | he) | he
  · have hm : e ∈ values (st.joins.flatMap fun j => .words " " :: j.spans) := he
    obtain ⟨span, hspan, hv⟩ := List.mem_filterMap.1 hm
    obtain ⟨j, hj, hspan⟩ := List.mem_flatMap.1 hspan
    have hon : e ∈ values j.onSpans := by
      have hall : e ∈ values (.words " " :: j.spans) := List.mem_filterMap.2 ⟨span, hspan, hv⟩
      exact hall
    obtain ⟨before, after, hsplit⟩ := List.append_of_mem hj
    rw [Statement.aliases, hsplit, List.map_append, List.map_cons]
    rcases hst.joins_alias hsplit hon with ha | ha
    · rw [ha]
      simp
    · exact List.mem_cons.2 ((List.mem_cons.1 ha).imp_right (List.mem_append_left _))
  · split at he <;> cases he
  · exact hst.where_alias he

theorem exposed_alias (hst : st.Of mapping plan f) (hx : x ∈ st.exposed) :
    x.2.tableAlias ∈ st.aliases := by
  rcases List.mem_cons.1 hx with rfl | hx
  · rw [hst.assembled]
    exact List.mem_cons_self
  · obtain ⟨i, hi, rfl⟩ := List.mem_mapIdx.1 hx
    have hslot : st.slots[i] ∈ st.slots := List.getElem_mem hi
    rcases mem_foldl_addSlot hslot with hn | hm
    · cases hn
    · obtain ⟨o, ho, he⟩ := List.mem_flatMap.1 hm
      rw [hst.aliases_eq]
      exact hst.outputs_own ho _ he

theorem source_alias (hst : st.Of mapping plan f) (he : e ∈ values st.sourceSpans) :
    e.tableAlias ∈ st.aliases := by
  have hidentity : st.identity.tableAlias ∈ st.aliases := hst.exposed_alias List.mem_cons_self
  rw [sourceSpans] at he
  split at he
  · rw [subquerySpans, values_append, values_append, values_append, values_separated] at he
    simp only [List.mem_append] at he
    rcases he with ((he | he) | he) | he
    · rw [List.mem_singleton.1 he]
      exact hidentity
    · obtain ⟨part, hpart, he⟩ := List.mem_flatMap.1 he
      obtain ⟨x, hx, rfl⟩ := List.mem_map.1 hpart
      rw [List.mem_singleton.1 he]
      exact hst.exposed_alias hx
    · exact hst.tables_alias he
    · rw [List.mem_singleton.1 he]
      exact hidentity
  · exact hst.tables_alias he

theorem wellScoped (hst : st.Of mapping plan f) : st.WellScoped where
  aliases := hst.aliases_nodup.1
  joins _ _ _ hj _ he := hst.joins_alias hj he
  filter _ he := hst.where_alias he
  source _ he := hst.source_alias he
  slots hd e he := by
    obtain ⟨o, ho, hm⟩ := mem_outputs_of_outer he
    obtain ⟨k, x, hscope, hx, ht⟩ := scope_slot hd (List.mem_flatMap.2 ⟨o, ho, hm⟩)
    have hname : slotName k ∈ st.exposed.map (·.1) := List.mem_map_of_mem hx
    exact ⟨k, x, hscope, hx, ht, List.count_eq_one_of_mem st.exposed_nodup hname⟩
  plain hd e he := by
    have halias : e.tableAlias ∈ st.aliases := by
      rcases he with he | he
      · exact hst.outer_alias he
      · exact hst.source_alias he
    obtain ⟨n, hn⟩ := hst.aliases_nodup.2 _ halias
    have hscope : st.scope e = e.text := by
      rw [scope, hd]
      rfl
    exact ⟨hscope, halias, fun k => hscope ▸ Expr.text_ne_slotRef hn k⟩

end Statement.Of

theorem foldl_add_distinct (stages : List Stage) (c : Clauses) :
    (stages.foldl Clauses.add c).distinct = true ↔
      c.distinct = true ∨ ∃ identity, .distinct identity ∈ stages := by
  induction stages generalizing c with
  | nil => simp
  | cons stage stages ih =>
    rw [List.foldl_cons, ih]
    cases stage with
    | distinct identity => simp [Clauses.add]
    | _ => simp [Clauses.add]

theorem Statement.Of.distinct_iff {st : Statement} (hst : st.Of mapping plan f) :
    st.distinct = true ↔ ∃ identity, .distinct identity ∈ plan.stages := by
  have hd : st.distinct = (Clauses.ofPlan plan).distinct := by
    rw [hst.assembled]
    rfl
  rw [hd, Clauses.ofPlan, foldl_add_distinct]
  simp

/-- The statement of a compiled plan is written with the values of its clauses, and whatever the
names of tables and columns, each value is in scope where it is named. -/
theorem statement_scoped {c : Compiler} {plan : Plan} {query : Query}
    (hp : c.run root spec countOnly = .ok plan) (hr : render mapping plan = .ok query) :
    ∃ st, statement mapping plan = .ok st ∧
      query.sql = st.countHead ++ "SELECT " ++ Span.written st.scope st.selectionSpans ++
        " FROM " ++ Span.written Expr.text st.sourceSpans ++
        Span.written st.scope st.tailSpans ++ st.countFoot ∧
      (st.distinct = true ↔ ∃ identity, .distinct identity ∈ plan.stages) ∧ st.WellScoped := by
  obtain ⟨st, hst, rfl⟩ := map_eq_ok hr
  obtain ⟨f, hof⟩ := statement_eq_ok hst
  obtain ⟨q, raws, resolution, g, h⟩ := Compiler.run_eq_ok hp
  have hwhere := Statement.written_whereSpans fun d hd o ho => hof.filters_plain h hd ho
  exact ⟨st, hst, Statement.text_eq_spans hwhere, hof.distinct_iff, hof.wellScoped⟩

end NeutralQuery.Sql

namespace NeutralQuery.Sample

open Sql

def rostered : Catalog := ⟨[person, team], [staffing, membership]⟩

def nearby : QuerySpec where
  criteria := [⟨"people.city", "EQUAL", [.text "Oslo"]⟩]
  select := [.ofField "name"]
  orderBy := [⟨"people.team.name", .descending⟩]
  distinct := true

def inOslo : Predicate := ⟨"people.city", .equal, [.text "Oslo"]⟩

def rosterLookups : List Lookup :=
  [peopleLookup, ⟨"people.team", "__people_team", "people", "people.team", membership, team⟩]

def teammateField : FieldRef :=
  { raw := "people.team.name", location := "people.team.name", type := .string,
    parentLocation := "people.team", parentIsReference := true,
    references := ["people", "people.team"] }

def nearbyPlan : Plan where
  root := team
  stages := rosterLookups.flatMap Compile.lookupStages ++
    [.keep (.predicate inOslo), .distinct "id", .sort [⟨"people.team.name", .descending⟩],
      .project [("name", "name")]]
  fields := [("name", teamNameField), ("people.city", peopleCityField),
    ("people.team.name", teammateField)]
  countOnly := false

theorem run_nearby :
    (⟨rostered, .relational⟩ : Compiler).run "team" nearby false = .ok nearbyPlan := by
  let raws := ["people.city", "name", "people.team.name"]
  let q : Compile.Parsed :=
    ⟨nearby, .predicate inOslo, .all, [⟨"name", ⟨"name", "name", none⟩⟩], []⟩
  have hq : Compile.read nearby = .ok q := rfl
  have hp : q.paths = .ok raws := rfl
  have hr : Resolution.resolve rostered team raws = .ok ⟨rosterLookups, nearbyPlan.fields⟩ := rfl
  have hg : q.grouping nearbyPlan.fields = .ok (nearbyPlan.fields, {}) := rfl
  exact Compiler.run_of_steps rfl hq hp hr hg rfl

def nearbyStatement : Statement where
  table := "teams"
  rootAlias := "t_0"
  identity := .column "t_0" "id"
  joins := [⟨"people", "p_1", "team", .column "t_0" "id", false⟩,
    ⟨"teams", "t_2", "id", .column "p_1" "team", false⟩]
  filters := [.compare (.value (.column "p_1" "city")) .eq (.text "Oslo")]
  distinct := true
  selection := .items [⟨.value (.column "t_0" "name"), some "name"⟩]
  groupBy := []
  having := none
  orderBy := some [(.value (.column "t_2" "name"), true)]
  limit := none
  offset := none
  countAs := none

theorem statement_nearby : statement tables nearbyPlan = .ok nearbyStatement := rfl

theorem render_nearby : render tables nearbyPlan =
    .ok ⟨nearbyStatement.text, [.text "Oslo"], ["name"], false⟩ := by
  rw [render, statement_nearby]
  rfl

end NeutralQuery.Sample

namespace NeutralQuery.Sql

open Sample

theorem statement_scoped_nearby :
    (⟨rostered, .relational⟩ : Compiler).run "team" nearby false = .ok nearbyPlan ∧
      render tables nearbyPlan =
        .ok ⟨nearbyStatement.text, [.text "Oslo"], ["name"], false⟩ ∧
      nearbyStatement.text =
        "SELECT d.__c1 AS \"name\" FROM (SELECT DISTINCT ON (t_0.id) t_0.id AS __c0, " ++
          "t_0.name AS __c1, t_2.name AS __c2 FROM teams AS t_0 LEFT JOIN people AS p_1 " ++
          "ON p_1.team = t_0.id LEFT JOIN teams AS t_2 ON t_2.id = p_1.team " ++
          "WHERE p_1.city = $1 ORDER BY t_0.id) AS d ORDER BY d.__c2 DESC NULLS LAST" ∧
      nearbyStatement.distinct = true ∧ nearbyStatement.aliases = ["t_0", "p_1", "t_2"] ∧
      nearbyStatement.WellScoped := by
  obtain ⟨st, hst, _, _, hscoped⟩ := statement_scoped run_nearby render_nearby
  cases statement_nearby.symm.trans hst
  exact ⟨run_nearby, render_nearby, by decide +kernel, rfl, rfl, hscoped⟩

end NeutralQuery.Sql
