import Mathlib.Data.List.Forall2
import NeutralQuery.Error

namespace NeutralQuery

theorem map_ok {x : Outcome α} (k : α → β) (h : ∃ a, x = .ok a) : ∃ b, x.map k = .ok b := by
  obtain ⟨a, rfl⟩ := h
  exact ⟨k a, rfl⟩

section

variable {f : α → Outcome β} {xs : List α} {ys : List β}

theorem mapM_cons_eq (f : α → Outcome β) (x : α) (xs : List α) :
    (x :: xs).mapM f =
      match f x with
      | .error e => .error e
      | .ok y => (xs.mapM f).map (y :: ·) := by
  rw [List.mapM_cons]
  cases f x with
  | error e => rfl
  | ok y => cases xs.mapM f <;> rfl

theorem mapM_cons_eq_ok (h : (x :: xs).mapM f = .ok found) :
    ∃ y ys, f x = .ok y ∧ xs.mapM f = .ok ys ∧ found = y :: ys := by
  rw [List.mapM_cons] at h
  obtain ⟨y, hy, h⟩ := bind_eq_ok h
  obtain ⟨ys, hys, h⟩ := bind_eq_ok h
  cases h
  exact ⟨y, ys, hy, hys, rfl⟩

theorem mapM_append_eq_ok {ys : List α} (h : (xs ++ ys).mapM f = .ok found) :
    ∃ front back, xs.mapM f = .ok front ∧ ys.mapM f = .ok back ∧ found = front ++ back := by
  rw [List.mapM_append] at h
  obtain ⟨front, hfront, h⟩ := bind_eq_ok h
  obtain ⟨back, hback, h⟩ := bind_eq_ok h
  cases h
  exact ⟨front, back, hfront, hback, rfl⟩

/-- A traversal that succeeds has succeeded at each member. -/
theorem forall₂_of_mapM (h : xs.mapM f = .ok ys) : List.Forall₂ (fun x y => f x = .ok y) xs ys := by
  induction xs generalizing ys with
  | nil =>
    cases h
    exact .nil
  | cons x xs ih =>
    obtain ⟨y, rest, hy, hrest, rfl⟩ := mapM_cons_eq_ok h
    exact .cons hy (ih hrest)

theorem mapM_of_forall₂ (h : List.Forall₂ (fun x y => f x = .ok y) xs ys) : xs.mapM f = .ok ys := by
  induction h with
  | nil => rfl
  | cons hx _ ih =>
    rw [List.mapM_cons, hx, ih]
    rfl

theorem exists_left_of_forall₂ {R : α → β → Prop} (h : List.Forall₂ R xs ys) (hy : y ∈ ys) :
    ∃ x ∈ xs, R x y := by
  induction h with
  | nil => cases hy
  | cons hx _ ih =>
    rcases List.mem_cons.1 hy with rfl | hy
    · exact ⟨_, List.mem_cons_self, hx⟩
    · obtain ⟨x, hm, hr⟩ := ih hy
      exact ⟨x, List.mem_cons_of_mem _ hm, hr⟩

theorem exists_right_of_forall₂ {R : α → β → Prop} (h : List.Forall₂ R xs ys) (hx : x ∈ xs) :
    ∃ y ∈ ys, R x y := by
  have hf : List.Forall₂ (flip R) ys xs := h.flip
  exact exists_left_of_forall₂ hf hx

theorem exists_of_mapM (h : xs.mapM f = .ok ys) (hy : y ∈ ys) : ∃ x ∈ xs, f x = .ok y := by
  obtain ⟨x, hx, hf⟩ := exists_left_of_forall₂ (forall₂_of_mapM h) hy
  exact ⟨x, hx, hf⟩

theorem exists_mem_of_mapM (h : xs.mapM f = .ok ys) (hx : x ∈ xs) : ∃ y ∈ ys, f x = .ok y :=
  exists_right_of_forall₂ (forall₂_of_mapM h) hx

theorem eq_ok_of_mapM (h : xs.mapM f = .ok ys) (hx : x ∈ xs) : ∃ y, f x = .ok y := by
  obtain ⟨y, _, hy⟩ := exists_mem_of_mapM h hx
  exact ⟨y, hy⟩

/-- Before the member at which a traversal fails it has succeeded. -/
theorem exists_split_of_mapM (h : xs.mapM f = .error e) :
    ∃ before x after, xs = before ++ x :: after ∧ (∀ y ∈ before, ∃ z, f y = .ok z) ∧
      f x = .error e := by
  induction xs with
  | nil => cases h
  | cons x xs ih =>
    rw [mapM_cons_eq] at h
    split at h
    · next hx =>
      cases h
      exact ⟨[], x, xs, rfl, fun _ hy => (nomatch hy), hx⟩
    · next y hy =>
      obtain ⟨before, x', after, rfl, hb, hx'⟩ := ih (map_eq_error h)
      exact ⟨x :: before, x', after, rfl, List.forall_mem_cons.2 ⟨⟨y, hy⟩, hb⟩, hx'⟩

/-- A traversal that fails has failed at a member. -/
theorem exists_error_of_mapM (h : xs.mapM f = .error e) : ∃ x ∈ xs, f x = .error e := by
  obtain ⟨before, x, after, rfl, _, hx⟩ := exists_split_of_mapM h
  exact ⟨x, List.mem_append_right before List.mem_cons_self, hx⟩

theorem mapM_ok (h : ∀ x ∈ xs, ∃ y, f x = .ok y) : ∃ ys, xs.mapM f = .ok ys := by
  cases hm : xs.mapM f with
  | ok ys => exact ⟨ys, rfl⟩
  | error e =>
    obtain ⟨x, hx, he⟩ := exists_error_of_mapM hm
    obtain ⟨y, hy⟩ := h x hx
    rw [he] at hy
    cases hy

theorem mapM_eq_error_iff :
    xs.mapM f = .error e ↔ ∃ before x after, xs = before ++ x :: after ∧
      (∀ y ∈ before, ∃ z, f y = .ok z) ∧ f x = .error e := by
  refine ⟨exists_split_of_mapM, ?_⟩
  rintro ⟨before, x, after, rfl, hb, hx⟩
  obtain ⟨front, hf⟩ := mapM_ok hb
  rw [List.mapM_append, hf, mapM_cons_eq, hx]
  rfl

end

end NeutralQuery
