import NeutralQuery.Proofs.Filter.Verdicts
import NeutralQuery.Proofs.Memory.Groups

namespace NeutralQuery

/-- The character that stands for another in the location of a path. -/
def Text.unmarked (c : Char) : Char := if c = '<' then '.' else c

theorem Text.unmarked_ne (c : Char) : unmarked c ≠ '<' := by
  rw [unmarked]
  split
  · decide
  · assumption

namespace Aggregate

open Text

theorem unmarked_eq_iff (h : c' ≠ '<') (h' : c' ≠ '.') : unmarked c = c' ↔ c = c' := by
  rw [unmarked]
  split
  · next hc =>
    rw [hc]
    exact ⟨fun he => absurd he.symm h', fun he => absurd he.symm h⟩
  · exact Iff.rfl

theorem isBlank_unmarked : isBlank ∘ unmarked = isBlank := by
  funext c
  rw [Function.comp_apply, unmarked]
  split
  · next hc =>
    rw [hc]
    decide
  · rfl

theorem trimBoth_unmarked (cs : List Char) :
    trimBoth isBlank (cs.map unmarked) = (trimBoth isBlank cs).map unmarked := by
  rw [trimBoth, List.dropWhile_map, isBlank_unmarked, ← List.map_reverse, List.dropWhile_map,
    isBlank_unmarked, ← List.map_reverse, trimBoth]

theorem cutAt_unmarked (cs : List Char) :
    cutAt ']' (cs.map unmarked) =
      (cutAt ']' cs).map fun (tag, rest) => (tag.map unmarked, rest.map unmarked) := by
  induction cs with
  | nil => rfl
  | cons c cs ih =>
    rw [List.map_cons, cutAt, cutAt]
    by_cases hc : c = ']'
    · rw [if_pos hc, if_pos ((unmarked_eq_iff (by decide) (by decide)).2 hc)]
      rfl
    · rw [if_neg hc, if_neg fun h => hc ((unmarked_eq_iff (by decide) (by decide)).1 h), ih,
        Option.map_map, Option.map_map]
      rfl

theorem isAggregate_unmarked (h : t.toList = s.toList.map unmarked) :
    isAggregate t = isAggregate s := by
  have hnl (rest : List Char) : (rest.map unmarked).contains '\n' = rest.contains '\n' := by
    rw [Bool.eq_iff_iff, List.contains_iff_mem, List.contains_iff_mem, List.mem_map]
    constructor
    · rintro ⟨c, hc, he⟩
      exact (unmarked_eq_iff (by decide) (by decide)).1 he ▸ hc
    · exact fun hm => ⟨'\n', hm, rfl⟩
  rw [isAggregate, isAggregate, cutTag?, cutTag?, Text.trim, Text.trim, String.toList_ofList,
    String.toList_ofList, h, trimBoth_unmarked]
  cases trimBoth isBlank s.toList with
  | nil => rfl
  | cons c cs =>
    rw [List.map_cons]
    by_cases hc : c = '['
    · subst hc
      have hopen : unmarked '[' = '[' := rfl
      simp only [hopen, cutAt_unmarked]
      cases cutAt ']' cs with
      | none => rfl
      | some parts =>
        simp only [Option.map_some, hnl]
        split <;> rfl
    · have hne : unmarked c ≠ '[' := fun he => hc ((unmarked_eq_iff (by decide) (by decide)).1 he)
      split
      · next heq => exact absurd (List.cons.inj heq).1 hne
      · split
        · next heq => exact absurd (List.cons.inj heq).1 hc
        · rfl

end Aggregate

namespace FieldPath

theorem location_unmarked (h : parse written = .ok p) (hl : p.leftJoin = true) :
    p.location.toList = written.toList.map Text.unmarked := by
  rw [parse] at h
  split at h
  · cases h
  split at h
  · cases checkSegments_eq_ok h
    cases hl
  next head last hc =>
    split at h
    · cases h
    next hlast =>
      split at h
      · cases h
      split at h
      · cases h
      cases checkSegments_eq_ok h
      have hsame {cs : List Char} (hn : '<' ∉ cs) : cs.map Text.unmarked = cs := by
        refine (List.map_congr_left fun c hc => ?_).trans (List.map_id cs)
        have hne : c ≠ '<' := fun he => hn (he ▸ hc)
        exact if_neg hne
      have hhead := hsame (Text.not_mem_of_cutAt hc)
      have htail := hsame fun hm => hlast (List.contains_iff_mem.2 hm)
      rw [Text.cutAt_eq_some hc, List.map_append, List.map_cons, hhead, htail, location, Text.join,
        String.toList_ofList, List.map_append, List.map_map]
      have hparts : (Text.splitChars '.' head).map (String.toList ∘ String.ofList) =
          Text.splitChars '.' head := List.map_id'' (fun _ => String.toList_ofList) _
      rw [hparts, List.map_singleton, String.toList_ofList,
        Text.joinChars_concat (Text.splitChars_ne_nil '.' head), Text.joinChars_splitChars]
      rfl

theorem location_eq_of_unmarked (h : parse written = .ok p) (hn : '<' ∉ written.toList) :
    p.location = written := by
  rcases parse_cases h with ⟨_, hw⟩ | ⟨_, hw, _⟩
  · exact hw.symm
  · rw [hw] at hn
    simp at hn

end FieldPath

/-- A value stands at a path, by itself or in a list. -/
def Row.Stores (row : Row) (path : String) (v : Value) : Prop :=
  row.get? path = some v ∨ ∃ items, row.get? path = some (.list items) ∧ v ∈ items

/-- A value as a row gives it for a type: null, a value of the type, or a list of such. -/
def Value.Fits (type : ScalarType) (v : Value) : Prop :=
  (v = .null ∨ v.hasType type = true) ∨
    ∃ items, v = .list items ∧ ∀ item ∈ items, item = .null ∨ item.hasType type = true

namespace Memory

variable {fields : FieldTable} {row : Row}

/-- The failure to read a stored value as one of the type of its field. -/
inductive Unreadable (fields : FieldTable) (row : Row) : Failure → Prop
  | intro (hf : fields.find? raw = some ref) (hs : row.Stores ref.location v)
      (hc : Cast.toType v ref.type = .error cause) :
      Unreadable fields row (.query .conversion raw "" (some v) (.cannotConvert ref.type.name)
        (some (.cast cause)))

theorem Unreadable.isKeyNotFound (h : Unreadable fields row e) : e.isKeyNotFound = false := by
  cases h
  rfl

theorem convert_eq_error (h : convert raw v type = .error e) :
    ∃ cause, Cast.toType v type = .error cause ∧
      e = .query .conversion raw "" (some v) (.cannotConvert type.name) (some (.cast cause)) := by
  rw [convert] at h
  split at h
  · cases h
  · split at h
    · cases h
    · next cause hc =>
      cases h
      exact ⟨cause, hc, rfl⟩

theorem convert_eq_ok (ht : type.isConcrete = true) (h : convert raw v type = .ok w) :
    w = .null ∨ w.hasType type = true := by
  cases hv : v.isNull with
  | true =>
    rw [convert, hv] at h
    cases h
    exact .inl rfl
  | false => exact .inr (convert_hasType ht hv h)

theorem context_cases (hf : fields.find? raw = some ref) (row : Row) :
    (row.get? ref.location = none ∧ context fields row raw = .error .keyNotFound) ∨
      (∃ e, context fields row raw = .error e ∧ Unreadable fields row e) ∨
      ∃ w, context fields row raw = .ok w ∧ (ref.type.isConcrete = true → w.Fits ref.type) := by
  have hread (v : Value) (hs : row.Stores ref.location v) :
      (∃ e, convert raw v ref.type = .error e ∧ Unreadable fields row e) ∨
        ∃ w, convert raw v ref.type = .ok w ∧
          (ref.type.isConcrete = true → w = .null ∨ w.hasType ref.type = true) := by
    cases hc : convert raw v ref.type with
    | error e =>
      obtain ⟨cause, ht, rfl⟩ := convert_eq_error hc
      exact .inl ⟨_, rfl, .intro hf hs ht⟩
    | ok w => exact .inr ⟨w, rfl, fun ht => convert_eq_ok ht hc⟩
  simp only [context, hf, Option.map_some, Option.getD_some]
  cases hg : row.get? ref.location with
  | none => exact .inl ⟨rfl, rfl⟩
  | some v =>
    refine .inr ?_
    simp only
    split
    · next ho =>
      refine .inr ⟨v, rfl, fun ht => ?_⟩
      rw [ho] at ht
      cases ht
    · split
      · next items =>
        cases hm : items.mapM fun item => convert raw item ref.type with
        | error e =>
          obtain ⟨item, hi, he⟩ := exists_error_of_mapM hm
          rcases hread item (.inr ⟨items, hg, hi⟩) with ⟨e', he', hu⟩ | ⟨w, hw, _⟩
          · cases he.symm.trans he'
            exact .inl ⟨e, rfl, hu⟩
          · cases he.symm.trans hw
        | ok ws =>
          refine .inr ⟨.list ws, rfl, fun ht => .inr ⟨ws, rfl, fun w hw => ?_⟩⟩
          obtain ⟨item, _, hc⟩ := exists_of_mapM hm hw
          exact convert_eq_ok ht hc
      · rcases hread v (.inl hg) with he | ⟨w, hw, hfit⟩
        · exact .inl he
        · exact .inr ⟨w, hw, fun ht => .inl (hfit ht)⟩

theorem Unreadable.field_eq (h : Unreadable fields row e) {context : Context}
    (hc : context raw = .error e) : context.field raw = .error e := by
  simp only [Context.field, hc, h.isKeyNotFound]
  rfl

theorem get_cases (fields : FieldTable) (row : Row) (raw : String) :
    (∃ v, (context fields row).get raw = .ok v) ∨
      ∃ e, (context fields row).get raw = .error e ∧ Unreadable fields row e := by
  rw [Context.get]
  cases hf : fields.find? raw with
  | none =>
    simp only [context, hf, Option.map_none, Option.getD_none]
    cases row.get? raw with
    | none => exact .inl ⟨.null, rfl⟩
    | some v => exact .inl ⟨v, rfl⟩
  | some ref =>
    rcases context_cases hf row with ⟨_, hc⟩ | ⟨e, hc, hu⟩ | ⟨w, hc, _⟩
    · rw [hc]
      exact .inl ⟨.null, rfl⟩
    · rw [hc]
      simp only [hu.isKeyNotFound]
      exact .inr ⟨e, rfl, hu⟩
    · rw [hc]
      exact .inl ⟨w, rfl⟩

theorem get_unmarked (hs : fields.Sourced catalog root) (hf : fields.find? raw = some ref)
    (ha : Aggregate.isAggregate raw = false) (hg : row.get? ref.location = none)
    (hp : FieldPath.parse raw = .ok path) (hl : path.leftJoin = true) :
    (context fields row).get path.location = .ok .null := by
  have hloc : row.get? path.location = none := by
    cases hs raw ref hf with
    | path p lookups hp' ho =>
      cases hp.symm.trans hp'
      rwa [(Resolution.ofPath_eq_ok ho).2.2.1] at hg
    | aggregate hagg =>
      rw [ha] at hagg
      cases hagg
  have hmissing : context fields row path.location = .error .keyNotFound := by
    cases hf' : fields.find? path.location with
    | none => simp only [context, hf', Option.map_none, Option.getD_none, hloc]
    | some other =>
      have hother : other.location = path.location := by
        cases hs path.location other hf' with
        | path p lookups hp' ho =>
          rw [(Resolution.ofPath_eq_ok ho).2.2.1]
          refine FieldPath.location_eq_of_unmarked hp' ?_
          rw [FieldPath.location_unmarked hp hl]
          intro hm
          obtain ⟨c, _, hc⟩ := List.mem_map.1 hm
          exact Text.unmarked_ne c hc
        | aggregate hagg =>
          rw [Aggregate.isAggregate_unmarked (FieldPath.location_unmarked hp hl), ha] at hagg
          cases hagg
      simp only [context, hf', Option.map_some, Option.getD_some, hother, hloc]
  rw [Context.get, hmissing]
  rfl

theorem field_of_missing {context : Context} (hc : context raw = .error .keyNotFound)
    (hmissing : ∀ path, FieldPath.parse raw = .ok path → path.leftJoin = true →
      context.get path.location = .ok .null) : context.field raw = .ok .null := by
  have hkey : Failure.keyNotFound.isKeyNotFound = true := rfl
  simp only [Context.field, hc, hkey, if_true]
  cases hp : FieldPath.parse raw with
  | error e => rfl
  | ok path =>
    simp only
    split
    · next hl => exact hmissing path hp hl
    · rfl

theorem field_cases (hf : fields.find? raw = some ref) (ht : ref.type.isConcrete = true)
    (hmissing : row.get? ref.location = none → ∀ path, FieldPath.parse raw = .ok path →
      path.leftJoin = true → (context fields row).get path.location = .ok .null) :
    (∃ e, (context fields row).field raw = .error e ∧ Unreadable fields row e) ∨
      ∃ w, (context fields row).field raw = .ok w ∧ w.Fits ref.type := by
  rcases context_cases hf row with ⟨hg, hc⟩ | ⟨e, hc, hu⟩ | ⟨w, hc, hfit⟩
  · exact .inr ⟨.null, field_of_missing hc (hmissing hg), .inl (.inl rfl)⟩
  · exact .inl ⟨e, hu.field_eq hc, hu⟩
  · exact .inr ⟨w, by rw [Context.field, hc], hfit ht⟩

end Memory

namespace Filter

theorem someMatches_eq_ok {operands : List Value} {items : List Value}
    (h : ∀ item ∈ items, ∃ b, matchesAny registry o operands item = .ok b) :
    ∃ b, someMatches registry o operands items = .ok b := by
  induction items with
  | nil => exact ⟨false, by rw [someMatches]⟩
  | cons item rest ih =>
    obtain ⟨b, hb⟩ := h item List.mem_cons_self
    rw [someMatches, hb]
    cases b with
    | true => exact ⟨true, rfl⟩
    | false => exact ih fun other ho => h other (List.mem_cons_of_mem item ho)

theorem matchesAny_fits {p : Predicate} (hp : p.Typed type) (hs : p.operator ≠ .specified)
    (ho : Registry.Admits type o) (hv : v.Fits type) :
    ∃ b, matchesAny .standard o p.values v = .ok b := by
  rcases hv with hv | ⟨items, rfl, hitems⟩
  · exact ⟨_, matchesAny_typed hp hs ho hv⟩
  · rw [matchesAny]
    exact someMatches_eq_ok fun item hi => ⟨_, matchesAny_typed hp hs ho (hitems item hi)⟩

end Filter

namespace Memory

/-- A verdict, or a stored value that cannot be read. -/
def Decides (fields : FieldTable) (row : Row) (verdict : Outcome Bool) : Prop :=
  (∃ b, verdict = .ok b) ∨ ∃ e, verdict = .error e ∧ Unreadable fields row e

theorem isSpecified_decides (fields : FieldTable) (row : Row) {p : Predicate}
    (hp : p.Typed type) (ho : p.operator = .specified) (v : Value) :
    Decides fields row (Filter.isSpecified (context fields row) p v) := by
  obtain ⟨b, hb⟩ := Filter.specified_literal hp ho
  have hbool : Cast.toBool p.value = .ok b := by rw [hb]; rfl
  rw [Filter.isSpecified, hbool]
  cases b with
  | true => exact .inl ⟨_, rfl⟩
  | false =>
    simp only
    split
    · next path _ =>
      split
      · rcases get_cases fields row path.parent.location with ⟨parent, hg⟩ | ⟨e, hg, hu⟩
        · rw [hg]
          exact .inl ⟨_, rfl⟩
        · rw [hg]
          exact .inr ⟨e, rfl, hu⟩
      · exact .inl ⟨_, rfl⟩
    · exact .inl ⟨_, rfl⟩

theorem holdsPredicate_decides {p : Predicate} (hp : p.Typed type)
    (hf : (context fields row).field p.field = .ok v) (hv : v.Fits type) :
    Decides fields row (Filter.holdsPredicate .standard (context fields row) p) := by
  have hmatch (o : Operator) (hs : p.operator ≠ .specified) (ha : Registry.Admits type o) :
      ∃ b, Filter.matchesAny .standard o p.values v = .ok b := Filter.matchesAny_fits hp hs ha hv
  have htext (o : Operator) (ho : o.isTextMatch = true) (hm : p.operator.isTextMatch = true) :
      Registry.Admits type o := .inr (.inl ⟨ho, hp.isText hm⟩)
  rw [Filter.holdsPredicate, hf]
  cases ho : p.operator with
  | specified => exact isSpecified_decides fields row hp ho v
  | equal => exact .inl (hmatch .equal (by simp [ho]) (.inl rfl))
  | notEqual =>
    obtain ⟨b, hb⟩ := hmatch .equal (by simp [ho]) (.inl rfl)
    simp only [hb]
    exact .inl ⟨_, rfl⟩
  | doesNotContain =>
    obtain ⟨b, hb⟩ := hmatch .contain (by simp [ho]) (htext .contain rfl (by rw [ho]; rfl))
    simp only [hb]
    split
    · exact .inl ⟨_, rfl⟩
    · exact .inl ⟨_, rfl⟩
  | contain | startWith | endWith =>
    exact .inl (hmatch _ (by simp [ho]) (htext _ rfl (by rw [ho]; rfl)))
  | greaterThan | greaterThanOrEqual | lessThan | lessThanOrEqual =>
    exact .inl (hmatch _ (by simp [ho]) (.inr (.inr ⟨rfl, hp.isOrderable (by rw [ho]; rfl)⟩)))
  | or | group | other _ =>
    have hpred := hp.isPredicate
    simp [ho, Operator.isPredicate, Operator.predicates] at hpred

end Memory

namespace Criteria

theorem allHold_error {verdicts : List (Outcome Bool)} (h : allHold verdicts = .error e) :
    .error e ∈ verdicts := by
  induction verdicts with
  | nil => cases h
  | cons verdict rest ih =>
    match verdict with
    | .error e' =>
      cases h
      exact List.mem_cons_self
    | .ok false => cases h
    | .ok true => exact List.mem_cons_of_mem _ (ih h)

theorem someHolds_error {verdicts : List (Outcome Bool)} (h : someHolds verdicts = .error e) :
    .error e ∈ verdicts := by
  induction verdicts with
  | nil => cases h
  | cons verdict rest ih =>
    match verdict with
    | .error e' =>
      cases h
      exact List.mem_cons_self
    | .ok true => cases h
    | .ok false => exact List.mem_cons_of_mem _ (ih h)

end Criteria

namespace Filter

variable {registry : Registry} {context : Context}

mutual

theorem evaluate_error : ∀ (f : Filter) {e : Failure}, f.evaluate registry context = .error e →
    ∃ p ∈ f.leaves, holdsPredicate registry context p = .error e
  | .all, _, h => nomatch h
  | .predicate p, _, h => ⟨p, List.mem_cons_self, evaluate_predicate p ▸ h⟩
  | .and fs, _, h => by
    rw [evaluate_and] at h
    exact evaluate_error_of_mem fs (Criteria.allHold_error h)
  | .or fs, _, h => by
    rw [evaluate_or] at h
    exact evaluate_error_of_mem fs (Criteria.someHolds_error h)

theorem evaluate_error_of_mem : ∀ (fs : List Filter) {e : Failure},
    .error e ∈ fs.map (evaluate registry context) →
      ∃ p ∈ leavesAll fs, holdsPredicate registry context p = .error e
  | [], _, h => nomatch h
  | f :: fs, _, h => by
    rcases List.mem_cons.1 h with h | h
    · obtain ⟨p, hp, he⟩ := evaluate_error f h.symm
      exact ⟨p, List.mem_append_left _ hp, he⟩
    · obtain ⟨p, hp, he⟩ := evaluate_error_of_mem fs h
      exact ⟨p, List.mem_append_right _ hp, he⟩

end

end Filter

/-- What a filter of a plan can come to on a row. Each predicate has an operator that the backend
declares; one on a field of a declared type gives a verdict unless the stored value cannot be read,
and the filter itself fails only where a predicate does. -/
structure Memory.Safe (caps : Capabilities) (fields : FieldTable) (f : Filter) (row : Row) :
    Prop where
  operators : ∀ p ∈ f.leaves, caps.supports p.operator = true ∧
    (p.operator.isPredicate = true ∨ p.operator.isControl = true)
  leaves : ∀ p ∈ f.leaves, ∀ ref, fields.find? p.field = some ref →
    ref.type.isConcrete = true → p.operator.isControl = false →
      Decides fields row (Filter.holdsPredicate .standard (context fields row) p)
  whole : ∀ e, f.evaluate .standard (context fields row) = .error e →
    ∃ p ∈ f.leaves, Filter.holdsPredicate .standard (context fields row) p = .error e

namespace Compile

theorem isPredicate_or_isControl (h : o ∈ Operator.known) :
    o.isPredicate = true ∨ o.isControl = true := by
  revert o
  decide

theorem typed_safe (hb : Filter.build criteria = .ok f) (h : typed caps fields f = .ok t)
    (hmissing : ∀ p ∈ t.leaves, ∀ ref, fields.find? p.field = some ref →
      row.get? ref.location = none → ∀ path, FieldPath.parse p.field = .ok path →
        path.leftJoin = true → (Memory.context fields row).get path.location = .ok .null) :
    Memory.Safe caps fields t row := by
  have hleaf (u : Predicate) (hu : u ∈ t.leaves) : ∃ p : Predicate, p.IsRead ∧
      typedPredicate caps fields p = .ok u := by
    obtain ⟨p, hp, hpu⟩ := exists_left_of_forall₂ (Filter.forall₂_leaves h) hu
    exact ⟨p, (Filter.build_shaped hb).leaves p hp, hpu⟩
  have hkind (u : Predicate) (hu : u ∈ t.leaves) : caps.supports u.operator = true ∧
      (u.operator.isPredicate = true ∨ u.operator.isControl = true) := by
    obtain ⟨p, hread, hpu⟩ := hleaf u hu
    obtain ⟨_, _, _, rfl, hsupports, _⟩ := typedPredicate_eq_ok hpu
    exact ⟨hsupports, isPredicate_or_isControl hread.known⟩
  refine ⟨hkind, fun u hu ref hf ht hc => ?_, fun e he => Filter.evaluate_error t he⟩
  obtain ⟨p, hread, hpu⟩ := hleaf u hu
  have hpred : u.operator.isPredicate = true := by
    rcases (hkind u hu).2 with hpred | hcontrol
    · exact hpred
    · rw [hc] at hcontrol
      cases hcontrol
  have htyped := typedPredicate_typed hread.proper hpu hpred hf ht
  rcases Memory.field_cases hf ht (hmissing u hu ref hf) with ⟨e, he, hu⟩ | ⟨w, hw, hfit⟩
  · refine .inr ⟨e, ?_, hu⟩
    rw [Filter.holdsPredicate, he]
  · exact Memory.holdsPredicate_decides htyped hw hfit

end Compile

namespace Compiler

open Compile

/-- The filters of a plan are safe: the one on rows on every row, and the one on groups on every row
that the grouping of the plan gives. -/
theorem filters_safe {c : Compiler} {plan : Plan} (h : c.run root spec countOnly = .ok plan) :
    (∀ f row, .keep f ∈ plan.stages → Memory.Safe c.capabilities plan.fields f row) ∧
      ∀ f registry keys accumulators rows grouped row, .having f ∈ plan.stages →
        plan.group? = some (keys, accumulators) →
        Memory.group registry keys accumulators rows = .ok grouped → row ∈ grouped →
        Memory.Safe c.capabilities plan.fields f row := by
  obtain ⟨q, raws, resolution, g, hc⟩ := run_eq_ok h
  have hreads := read_eq_ok hc.read
  constructor
  · intro f row hs
    cases hc.emits hs with
    | keep hf =>
      refine typed_safe hreads.keep hf fun p hp ref hfind hg path hparse hl => ?_
      have hfields : p.field ∈ q.keep.leaves.map (·.field) :=
        (typed_fields hf).1 ▸ List.mem_map_of_mem hp
      obtain ⟨p', hp', he⟩ := List.mem_map.1 hfields
      have hplain := ((paths_eq_ok hc.paths).kept p' hp').1
      exact Memory.get_unmarked hc.sourced hfind (he ▸ hplain) hg hparse hl
  · intro f registry keys accumulators rows grouped row hs hgroup hrows hrow
    obtain ⟨_, rfl, rfl⟩ := hc.group?_eq_some.1 hgroup
    obtain ⟨group, _, hshown⟩ := exists_of_mapM hrows hrow
    cases hc.emits hs with
    | having _ hf =>
      refine typed_safe hreads.having hf fun p hp ref hfind hg path hparse hl => ?_
      cases htag : Aggregate.isAggregate p.field with
      | false => exact Memory.get_unmarked hc.sourced hfind htag hg hparse hl
      | true =>
        obtain ⟨ref', hfind', _, _, hstands⟩ := hc.having hf hp
        cases hfind.symm.trans hfind'
        obtain ⟨a, acc, _, hst⟩ := hstands htag
        have hfound := hst.found
        rw [Plan.accumulator?, hgroup, Option.bind_some] at hfound
        have hname := List.find?_some hfound
        simp only [beq_iff_eq] at hname
        obtain ⟨v, _, hv⟩ := Memory.groupRow_result hc.sound.solid hc.sound.nodup
          (List.mem_of_find?_eq_some hfound) hshown
        rw [hname, hg] at hv
        cases hv

end Compiler

namespace Sample

def sumRows : List Row := [[("sum_size", .ofInt64 5), ("max_[sum]size", .null)]]

end Sample

theorem Compiler.filters_safe_sums :
    Sample.items.run "item" Sample.sums false = .ok Sample.sumsPlan ∧
      Memory.group .standard [] [Sample.sumOfSizes, Sample.maxOfSums]
        [[("size", .ofInt64 2)], [("size", .ofInt64 3)]] = .ok Sample.sumRows ∧
      ∀ row ∈ Sample.sumRows,
        Memory.Safe .memory Sample.sumsPlan.fields Sample.sumsFilter row := by
  have hg : Memory.group .standard [] [Sample.sumOfSizes, Sample.maxOfSums]
      [[("size", .ofInt64 2)], [("size", .ofInt64 3)]] = .ok Sample.sumRows := rfl
  refine ⟨Sample.compile_sums, hg, fun row hr => ?_⟩
  exact (Compiler.filters_safe Sample.compile_sums).2 Sample.sumsFilter .standard [] _ _ _ row
    (List.mem_cons_of_mem _ List.mem_cons_self) rfl hg hr

namespace Sample

/-- A marker in lower case is read as an operator. -/
def marked : QuerySpec := { criteria := [⟨"size", "or", [.ofInt64 1]⟩] }

def markedFilter : Filter := .predicate ⟨"size", .or, [.ofInt64 1]⟩

def markedPlan : Plan := ⟨item, [.keep markedFilter], [("size", sizeField)], false⟩

theorem compile_marked :
    (⟨items.catalog, ⟨"memory", [.or]⟩⟩ : Compiler).run "item" marked false = .ok markedPlan := by
  let q : Compile.Parsed := ⟨marked, markedFilter, .all, [], []⟩
  have hq : Compile.read marked = .ok q := rfl
  have hp : q.paths = .ok ["size"] := rfl
  have hr : Resolution.resolve items.catalog item ["size"] = .ok ⟨[], [("size", sizeField)]⟩ := rfl
  have hg : q.grouping [("size", sizeField)] = .ok ([("size", sizeField)], {}) := rfl
  exact Compiler.run_of_steps rfl hq hp hr hg rfl

end Sample

/-- Where a backend declares a marker as an operator, a predicate with it is compiled and fails. -/
theorem Compiler.marker_undefined :
    (⟨Sample.items.catalog, ⟨"memory", [.or]⟩⟩ : Compiler).run "item" Sample.marked false =
        .ok Sample.markedPlan ∧
      .keep Sample.markedFilter ∈ Sample.markedPlan.stages ∧
      (∀ p ∈ Sample.markedFilter.leaves,
        (Sample.markedPlan.fields.find? p.field).map (·.type) = some .int) ∧
      Sample.markedFilter.evaluate .standard
          (Memory.context Sample.markedPlan.fields [("id", .ofInt64 1), ("size", .ofInt64 1)]) =
        .error (.undefinedOn "OR" (.ofInt64 1) (.ofInt64 1)) := by
  refine ⟨Sample.compile_marked, List.mem_cons_self, fun p hp => ?_, rfl⟩
  cases List.mem_singleton.1 hp
  rfl

end NeutralQuery
