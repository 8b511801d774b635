import NeutralQuery.Text.Basic

namespace NeutralQuery.Text

theorem splitChars_ne_nil (sep : Char) (cs : List Char) : splitChars sep cs ≠ [] := by
  cases cs with
  | nil => exact List.cons_ne_nil _ _
  | cons c cs =>
    rw [splitChars]
    split
    · exact List.cons_ne_nil _ _
    · split <;> exact List.cons_ne_nil _ _

theorem joinChars_splitChars (sep : Char) (cs : List Char) :
    joinChars sep (splitChars sep cs) = cs := by
  induction cs with
  | nil => rfl
  | cons c cs ih =>
    obtain ⟨part, parts, hp⟩ := List.exists_cons_of_ne_nil (splitChars_ne_nil sep cs)
    rw [splitChars]
    rw [hp] at ih ⊢
    split
    · next hc => rw [joinChars, ih, hc]; rfl; exact fun h => nomatch h
    · cases parts with
      | nil => rw [← ih]; rfl
      | cons next parts => rw [← ih]; rfl

theorem join_map_ofList (sep : Char) (parts : List (List Char)) :
    join sep (parts.map String.ofList) = String.ofList (joinChars sep parts) := by
  rw [join, List.map_map]
  congr 2
  exact List.map_id'' (fun _ => String.toList_ofList) parts

theorem join_split (sep : Char) (s : String) : join sep (split sep s) = s := by
  rw [split, join_map_ofList, joinChars_splitChars, String.ofList_toList]

theorem eq_of_split (h : split sep a = split sep b) : a = b := by
  rw [← join_split sep a, h, join_split]

theorem cutAt_eq_some (h : cutAt sep cs = some (head, rest)) : cs = head ++ sep :: rest := by
  induction cs generalizing head with
  | nil => cases h
  | cons c cs ih =>
    rw [cutAt] at h
    split at h
    · next hc =>
      cases h
      rw [hc]
      rfl
    · obtain ⟨⟨before, after⟩, hb, he⟩ := Option.map_eq_some_iff.1 h
      cases he
      rw [ih hb]
      rfl

theorem not_mem_of_cutAt (h : cutAt sep cs = some (head, rest)) : sep ∉ head := by
  induction cs generalizing head with
  | nil => cases h
  | cons c cs ih =>
    rw [cutAt] at h
    split at h
    · cases h
      exact List.not_mem_nil
    · next hc =>
      obtain ⟨⟨before, after⟩, hb, he⟩ := Option.map_eq_some_iff.1 h
      cases he
      exact List.not_mem_cons_of_ne_of_not_mem (fun he => hc he.symm) (ih hb)

theorem joinChars_concat {parts : List (List Char)} (hn : parts ≠ []) (last : List Char) :
    joinChars sep (parts ++ [last]) = joinChars sep parts ++ sep :: last := by
  induction parts with
  | nil => exact absurd rfl hn
  | cons part parts ih =>
    cases parts with
    | nil => rfl
    | cons next parts =>
      calc joinChars sep (part :: next :: parts ++ [last])
          = part ++ sep :: joinChars sep (next :: parts ++ [last]) := rfl
        _ = part ++ sep :: (joinChars sep (next :: parts) ++ sep :: last) := by
          rw [ih (List.cons_ne_nil next parts)]
        _ = joinChars sep (part :: next :: parts) ++ sep :: last := by
          rw [← List.cons_append, ← List.append_assoc]
          rfl

theorem splitChars_of_not_mem {cs : List Char} (h : sep ∉ cs) : splitChars sep cs = [cs] := by
  induction cs with
  | nil => rfl
  | cons c cs ih =>
    obtain ⟨hc, hcs⟩ := List.ne_and_not_mem_of_not_mem_cons h
    rw [splitChars, if_neg fun he => hc he.symm, ih hcs]

theorem splitChars_append {part : List Char} (h : sep ∉ part) (cs : List Char) :
    splitChars sep (part ++ sep :: cs) = part :: splitChars sep cs := by
  induction part with
  | nil => rw [List.nil_append, splitChars, if_pos rfl]
  | cons c part ih =>
    obtain ⟨hc, hpart⟩ := List.ne_and_not_mem_of_not_mem_cons h
    rw [List.cons_append, splitChars, if_neg fun he => hc he.symm, ih hpart]

theorem splitChars_joinChars {parts : List (List Char)} (hn : parts ≠ [])
    (h : ∀ part ∈ parts, sep ∉ part) : splitChars sep (joinChars sep parts) = parts := by
  induction parts with
  | nil => exact absurd rfl hn
  | cons part parts ih =>
    have hpart := h part List.mem_cons_self
    cases parts with
    | nil => exact splitChars_of_not_mem hpart
    | cons next parts =>
      have hrest := ih (List.cons_ne_nil _ _) fun p hp => h p (List.mem_cons_of_mem part hp)
      rw [joinChars, splitChars_append hpart, hrest]
      exact fun he => nomatch he

theorem not_mem_of_mem_splitChars {part : List Char} (h : part ∈ splitChars sep cs) :
    sep ∉ part := by
  induction cs generalizing part with
  | nil =>
    rw [List.mem_singleton.1 h]
    exact List.not_mem_nil
  | cons c cs ih =>
    rw [splitChars] at h
    split at h
    · rcases List.mem_cons.1 h with rfl | h
      · exact List.not_mem_nil
      · exact ih h
    · next hc =>
      obtain ⟨first, parts, hp⟩ := List.exists_cons_of_ne_nil (splitChars_ne_nil sep cs)
      rw [hp] at h ih
      rcases List.mem_cons.1 h with rfl | h
      · exact List.not_mem_cons_of_ne_of_not_mem (fun he => hc he.symm) (ih List.mem_cons_self)
      · exact ih (List.mem_cons_of_mem first h)

/-- A text that holds no separator. -/
def Solid (sep : Char) (s : String) : Prop := sep ∉ s.toList

instance : Decidable (Solid sep s) := inferInstanceAs (Decidable (¬_))

theorem Solid.append (ha : Solid sep a) (hb : Solid sep b) : Solid sep (a ++ b) := by
  rw [Solid, String.toList_append, List.mem_append]
  exact fun h => h.elim ha hb

theorem split_of_solid (h : Solid sep s) : split sep s = [s] := by
  rw [split, splitChars_of_not_mem h, List.map_singleton, String.ofList_toList]

theorem split_join {parts : List String} (hn : parts ≠ []) (h : ∀ part ∈ parts, Solid sep part) :
    split sep (join sep parts) = parts := by
  have hm : parts.map String.toList ≠ [] := fun he => hn (List.map_eq_nil_iff.1 he)
  rw [split, join, String.toList_ofList, splitChars_joinChars hm, List.map_map]
  · exact List.map_id'' (fun _ => String.ofList_toList) parts
  · intro part hp
    obtain ⟨s, hs, rfl⟩ := List.mem_map.1 hp
    exact h s hs

theorem splitChars_append_cons (sep : Char) (as bs : List Char) :
    splitChars sep (as ++ sep :: bs) = splitChars sep as ++ splitChars sep bs := by
  induction as with
  | nil => exact splitChars_append List.not_mem_nil bs
  | cons c as ih =>
    obtain ⟨part, parts, hp⟩ := List.exists_cons_of_ne_nil (splitChars_ne_nil sep as)
    rw [List.cons_append, splitChars, splitChars, ih, hp]
    split <;> rfl

theorem split_append_dot (a b : String) :
    split '.' (a ++ "." ++ b) = split '.' a ++ split '.' b := by
  have hchars : (a ++ "." ++ b).toList = a.toList ++ '.' :: b.toList := by
    rw [String.toList_append, String.toList_append, List.append_assoc]
    rfl
  rw [split, hchars, splitChars_append_cons, List.map_append]
  rfl

theorem join_cons_cons (s next : String) (rest : List String) :
    join '.' (s :: next :: rest) = s ++ "." ++ join '.' (next :: rest) := by
  have hchars : joinChars '.' ((s :: next :: rest).map String.toList) =
      s.toList ++ '.' :: joinChars '.' ((next :: rest).map String.toList) := rfl
  rw [join, hchars, ← List.singleton_append, String.ofList_append, String.ofList_append,
    String.ofList_toList, ← String.append_assoc]
  rfl

/-- What stands before the first dot of a text, and what stands behind it, are its own. -/
theorem dotted_inj {a b : String} (ha : Solid '.' a) (hb : Solid '.' b) :
    a ++ "." ++ s = b ++ "." ++ t ↔ a = b ∧ s = t := by
  constructor
  · intro h
    have hsplit := congrArg (split '.') h
    rw [split_append_dot, split_append_dot, split_of_solid ha, split_of_solid hb,
      List.singleton_append, List.singleton_append] at hsplit
    obtain ⟨hab, hst⟩ := List.cons_eq_cons.1 hsplit
    have hjoin := congrArg (join '.') hst
    rw [join_split, join_split] at hjoin
    exact ⟨hab, hjoin⟩
  · rintro ⟨rfl, rfl⟩
    rfl

theorem not_solid_dotted (a s : String) : ¬Solid '.' (a ++ "." ++ s) := by
  rw [Solid, String.toList_append, String.toList_append]
  simp

theorem split_ne_nil (sep : Char) (s : String) : split sep s ≠ [] :=
  fun h => splitChars_ne_nil sep s.toList (List.map_eq_nil_iff.1 h)

theorem solid_of_mem_split (h : part ∈ split sep s) : Solid sep part := by
  obtain ⟨cs, hc, rfl⟩ := List.mem_map.1 h
  rw [Solid, String.toList_ofList]
  exact not_mem_of_mem_splitChars hc

/-- A text with the segments of another before its own is a dotted one. -/
theorem eq_dotted_of_split {a : String} (h : split '.' s = split '.' a ++ rest) (hn : rest ≠ []) :
    s = a ++ "." ++ join '.' rest ∧ split '.' (join '.' rest) = rest := by
  have hrest : split '.' (join '.' rest) = rest := by
    apply split_join hn
    intro part hp
    exact solid_of_mem_split (h ▸ List.mem_append_right _ hp)
  refine ⟨?_, hrest⟩
  apply eq_of_split
  rw [h, split_append_dot, hrest]

/-- A text whose segments another begins with is the shorter of the two. -/
theorem length_lt_of_split {a b : String} (h : split '.' a <+: split '.' b) (hn : a ≠ b) :
    a.length < b.length := by
  obtain ⟨rest, hr⟩ := h
  by_cases he : rest = []
  · rw [he, List.append_nil] at hr
    exact absurd (eq_of_split hr) hn
  · rw [(eq_dotted_of_split hr.symm he).1, String.length_append, String.length_append]
    have hdot : ".".length = 1 := rfl
    omega

theorem startsWith_eq_isSome (s start : String) :
    startsWith s start = (dropStart? s start).isSome := by
  rw [dropStart?]
  split
  · next h => exact h
  · next h => exact Bool.eq_false_iff.2 h

theorem dropStart?_eq_some {s start rest : String} :
    dropStart? s start = some rest ↔ s = start ++ rest := by
  rw [dropStart?, startsWith]
  constructor
  · intro h
    split at h
    · next hp =>
      obtain ⟨cs, hcs⟩ := List.isPrefixOf_iff_prefix.1 hp
      rw [← hcs, ← String.length_toList, List.drop_left, Option.some_inj] at h
      rw [← h, ← String.toList_inj, String.toList_append, String.toList_ofList, hcs]
    · cases h
  · rintro rfl
    rw [String.toList_append, ← String.length_toList, List.drop_left, String.ofList_toList,
      if_pos (List.isPrefixOf_iff_prefix.2 (List.prefix_append _ _))]

/-- Nothing but a dotted text lies under another. -/
theorem dropStart?_solid (h : Solid '.' s) (base : String) : dropStart? s (base ++ ".") = none := by
  cases hd : dropStart? s (base ++ ".") with
  | none => rfl
  | some rest => exact absurd (dropStart?_eq_some.1 hd ▸ h) (not_solid_dotted base rest)

theorem dropStart?_dotted {key base : String} (hk : Solid '.' key) (hb : Solid '.' base)
    (rest : String) :
    dropStart? (key ++ "." ++ rest) (base ++ ".") = if key = base then some rest else none := by
  split
  · next he =>
    rw [dropStart?_eq_some, he]
  · next he =>
    cases hd : dropStart? (key ++ "." ++ rest) (base ++ ".") with
    | none => rfl
    | some r => exact absurd ((dotted_inj hk hb).1 (dropStart?_eq_some.1 hd)).1 he

end NeutralQuery.Text
