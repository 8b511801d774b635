import NeutralQuery.Proofs.Plan.Tags

namespace NeutralQuery

namespace Text

theorem mem_join {parts : List String} (hp : part ∈ parts) (hc : c ∈ part.toList) :
    c ∈ (join sep parts).toList := by
  rw [join, String.toList_ofList]
  induction parts with
  | nil => cases hp
  | cons first rest ih =>
    cases rest with
    | nil =>
      cases List.mem_singleton.1 hp
      exact hc
    | cons next rest =>
      rcases List.mem_cons.1 hp with rfl | hp
      · exact List.mem_append_left _ hc
      · exact List.mem_append_right _ (List.mem_cons_of_mem _ (ih hp))

theorem mem_of_mem_join {parts : List String} (hc : c ∈ (join sep parts).toList) :
    c = sep ∨ ∃ part ∈ parts, c ∈ part.toList := by
  rw [join, String.toList_ofList] at hc
  induction parts with
  | nil => cases hc
  | cons first rest ih =>
    cases rest with
    | nil => exact .inr ⟨first, List.mem_cons_self, hc⟩
    | cons next rest =>
      rcases List.mem_append.1 hc with hc | hc
      · exact .inr ⟨first, List.mem_cons_self, hc⟩
      rcases List.mem_cons.1 hc with hc | hc
      · exact .inl hc
      · obtain ⟨part, hp, hm⟩ | hs := (ih hc).symm
        · exact .inr ⟨part, List.mem_cons_of_mem first hp, hm⟩
        · exact .inl hs

theorem join_eq_intercalate (parts : List String) : join '.' parts = ".".intercalate parts := by
  induction parts with
  | nil => rfl
  | cons first rest ih =>
    cases rest with
    | nil => exact String.ofList_toList.trans String.intercalate_singleton.symm
    | cons next rest => rw [join_cons_cons, ih, String.intercalate_cons_cons]

end Text

namespace FieldPath

/-- The name of a segment is not empty and holds neither the separator nor the marker. -/
structure IsName (s : String) : Prop where
  ne_empty : s ≠ ""
  undotted : Text.Solid '.' s
  unmarked : Text.Solid '<' s

/-- A path that can be written: named segments, and a parent wherever the marker is. -/
structure Proper (p : FieldPath) : Prop where
  nonempty : p.segments ≠ []
  named : ∀ segment ∈ p.segments, IsName segment
  parent : p.leftJoin = true → 2 ≤ p.length

variable {p : FieldPath} {written : String}

theorem parse_unmarked (h : parse written = .ok p) :
    ∀ segment ∈ p.segments, Text.Solid '<' segment := by
  by_cases hm : '<' ∈ written.toList
  · obtain ⟨head, last, hc⟩ := exists_cutAt hm
    have hlast := ((parse_iff_of_cut hc).1 ⟨p, h⟩).1.2
    have hone : written.toList.count '<' = 1 := by
      rw [Text.cutAt_eq_some hc, List.count_append, List.count_cons_self,
        List.count_eq_zero.2 (Text.not_mem_of_cutAt hc), List.count_eq_zero.2 hlast]
    obtain ⟨hl, hw, _⟩ := (parse_cases h).resolve_left fun hn =>
      absurd ((leftJoin_iff h).2 hm) (Bool.eq_false_iff.1 hn.1)
    have hchars : written.toList = p.parent.location.toList ++ '<' :: p.terminal.toList := by
      rw [hw, String.toList_append, String.toList_append, List.append_assoc]
      rfl
    rw [hchars, List.count_append, List.count_cons_self] at hone
    have hparent : '<' ∉ p.parent.location.toList := List.count_eq_zero.1 (by omega)
    have hterminal : '<' ∉ p.terminal.toList := List.count_eq_zero.1 (by omega)
    intro segment hs
    rw [← List.dropLast_append_getLast (parse_segments h).1] at hs
    rcases List.mem_append.1 hs with hs | hs
    · exact fun hc => hparent (Text.mem_join hs hc)
    · rw [List.mem_singleton.1 hs]
      rwa [terminal, List.getLastD_eq_getLast?, List.getLast?_eq_some_getLast (parse_segments h).1]
        at hterminal
  · rcases parse_cases h with ⟨_, hw⟩ | ⟨hl, _⟩
    · rw [hw] at hm
      exact fun segment hs hc => hm (Text.mem_join hs hc)
    · exact absurd ((leftJoin_iff h).1 hl) hm

theorem parse_proper (h : parse written = .ok p) : p.Proper where
  nonempty := (parse_segments h).1
  named segment hs :=
    ⟨(parse_filled h segment hs).2, (parse_segments h).2 segment hs, parse_unmarked h segment hs⟩
  parent hl := by
    obtain ⟨_, _, hn⟩ := (parse_cases h).resolve_left fun hf =>
      absurd hl (Bool.eq_false_iff.1 hf.1)
    by_contra hlength
    have hinit : p.segments.dropLast = [] := by
      rw [length] at hlength
      rw [← List.length_eq_zero_iff, List.length_dropLast]
      omega
    rw [FieldPath.parent, location, hinit] at hn
    exact hn rfl

theorem not_mem_join {segments : List String} (h : ∀ segment ∈ segments, IsName segment) :
    '<' ∉ (Text.join '.' segments).toList := by
  intro hm
  rcases Text.mem_of_mem_join hm with hc | ⟨segment, hs, hc⟩
  · cases hc
  · exact (h segment hs).unmarked hc

theorem cutAt_eq_none (h : '<' ∉ cs) : Text.cutAt '<' cs = none := by
  cases hc : Text.cutAt '<' cs with
  | none => rfl
  | some cut =>
    have hmem : '<' ∈ cs := by
      rw [Text.cutAt_eq_some hc]
      exact List.mem_append_right _ List.mem_cons_self
    exact absurd hmem h

theorem parse_join {segments : List String} (hn : segments ≠ [])
    (h : ∀ segment ∈ segments, IsName segment) :
    parse (Text.join '.' segments) = .ok ⟨segments, false⟩ := by
  have hsplit : Text.split '.' (Text.join '.' segments) = segments :=
    Text.split_join hn fun segment hs => (h segment hs).undotted
  have hwritten : Text.join '.' segments ≠ "" := by
    intro he
    rw [he] at hsplit
    exact (h "" (hsplit ▸ List.mem_cons_self)).ne_empty rfl
  rw [parse, if_neg hwritten, cutAt_eq_none (not_mem_join h), hsplit]
  exact checkSegments_of_ne_empty (fun segment hs => (h segment hs).ne_empty) _ _

theorem parse_marked {init : List String} (hn : init ≠ []) (hi : ∀ segment ∈ init, IsName segment)
    (hl : IsName last) :
    parse (Text.join '.' init ++ "<" ++ last) = .ok ⟨init ++ [last], true⟩ := by
  have hsplit : Text.split '.' (Text.join '.' init) = init :=
    Text.split_join hn fun segment hs => (hi segment hs).undotted
  have hchars : (Text.join '.' init ++ "<" ++ last).toList =
      (Text.join '.' init).toList ++ '<' :: last.toList := by
    rw [String.toList_append, String.toList_append, List.append_assoc]
    rfl
  have hcut : Text.cutAt '<' (Text.join '.' init ++ "<" ++ last).toList =
      some ((Text.join '.' init).toList, last.toList) := by
    rw [hchars, Text.cutAt_append_left (not_mem_join hi), Text.cutAt, if_pos rfl]
    simp
  have hparts : ∀ part ∈ Text.splitChars '.' (Text.join '.' init).toList, part ≠ [] := by
    intro part hp he
    have hs : String.ofList part ∈ init := hsplit ▸ List.mem_map_of_mem hp
    exact (hi _ hs).ne_empty (String.ofList_eq_empty_iff.2 he)
  have hlast : last.toList ≠ [] := fun he => hl.ne_empty (String.toList_eq_nil_iff.1 he)
  have hinit : (Text.splitChars '.' (Text.join '.' init).toList).map String.ofList = init := hsplit
  rw [parse_of_cut hcut ⟨hl.undotted, hl.unmarked⟩ hlast hparts, hinit, String.ofList_toList]

theorem raw_marked (init : List String) (last : String) :
    raw ⟨init ++ [last], true⟩ = Text.join '.' init ++ "<" ++ last := by
  have hparent : parent ⟨init ++ [last], true⟩ = ⟨init, false⟩ := by
    rw [parent, List.dropLast_concat]
  have hterminal : terminal ⟨init ++ [last], true⟩ = last := List.getLastD_concat
  rw [raw, if_pos rfl, hparent, hterminal]
  rfl

theorem Proper.parse_raw (h : p.Proper) : parse p.raw = .ok p := by
  obtain ⟨segments, leftJoin⟩ := p
  cases leftJoin with
  | false => exact parse_join h.nonempty h.named
  | true =>
    obtain ⟨init, last, rfl⟩ : ∃ init last, segments = init ++ [last] :=
      ⟨_, _, (List.dropLast_append_getLast h.nonempty).symm⟩
    have hn : init ≠ [] := by
      rintro rfl
      have hlength := h.parent rfl
      simp [length] at hlength
    have hinit : ∀ segment ∈ init, IsName segment :=
      fun segment hs => h.named segment (List.mem_append_left _ hs)
    rw [raw_marked]
    exact parse_marked hn hinit (h.named last (List.mem_append_right _ List.mem_cons_self))

/-- The texts that are read are the written forms of paths, and each is read as the path that it is
the written form of. -/
theorem parse_eq_ok_iff : parse written = .ok p ↔ p.Proper ∧ p.raw = written :=
  ⟨fun h => ⟨parse_proper h, raw_of_parse h⟩, fun ⟨h, he⟩ => he ▸ h.parse_raw⟩

theorem parse_eq_error_iff :
    (∃ e, parse written = .error e) ↔ ∀ p : FieldPath, p.Proper → p.raw ≠ written := by
  constructor
  · rintro ⟨e, he⟩ p hp hw
    cases he.symm.trans (parse_eq_ok_iff.2 ⟨hp, hw⟩)
  · intro h
    cases hp : parse written with
    | error e => exact ⟨e, rfl⟩
    | ok p => exact absurd (raw_of_parse hp) (h p (parse_proper hp))

/-- Reading and writing paths are inverse over all texts and all paths of named segments that have a
parent wherever they have the marker, and any other text is refused. The location of a path is its
segments joined by dots, and its written form has the marker in place of the last dot. -/
theorem parse_inverse_raw (written : String) :
    (∀ p, parse written = .ok p ↔ p.Proper ∧ p.raw = written) ∧
    ((∃ e, parse written = .error e) ↔ ∀ p : FieldPath, p.Proper → p.raw ≠ written) ∧
    (∀ p : FieldPath, p.Proper → parse p.raw = .ok p) ∧
    (∀ p : FieldPath, p.location = ".".intercalate p.segments) ∧
    (∀ segments, raw ⟨segments, false⟩ = ".".intercalate segments) ∧
    ∀ init last, raw ⟨init ++ [last], true⟩ = ".".intercalate init ++ "<" ++ last := by
  refine ⟨fun p => parse_eq_ok_iff, parse_eq_error_iff, fun p h => h.parse_raw, fun p => ?_,
    fun segments => ?_, fun init last => ?_⟩
  · exact Text.join_eq_intercalate p.segments
  · exact Text.join_eq_intercalate segments
  · rw [raw_marked, Text.join_eq_intercalate]

end FieldPath

end NeutralQuery
