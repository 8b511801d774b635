import Mathlib.Data.List.Forall2
import NeutralQuery.Projection.Materialize

namespace NeutralQuery

/-- A failure that is no report of several others. -/
def Failure.Single : Failure → Prop
  | .several _ => False
  | _ => True

namespace Projection

theorem append_single (h : f.Single) (causes : List Failure) :
    Failure.append (some (.several causes)) f = .several (causes ++ [f]) := by
  cases f with
  | several causes => exact h.elim
  | _ => rfl

theorem append_none_single (h : f.Single) : Failure.append none f = .several [f] := by
  cases f with
  | several causes => exact h.elim
  | _ => rfl

theorem foldl_append_single {failures : List Failure} (h : ∀ f ∈ failures, f.Single)
    (causes : List Failure) :
    failures.foldl (fun collected f => some (Failure.append collected f))
      (some (.several causes)) = some (.several (causes ++ failures)) := by
  induction failures generalizing causes with
  | nil => rw [List.append_nil]; rfl
  | cons f failures ih =>
    obtain ⟨hf, hrest⟩ := List.forall_mem_cons.1 h
    rw [List.foldl_cons, append_single hf, ih hrest, List.append_assoc]
    rfl

theorem collect_single {failures : List Failure} (h : ∀ f ∈ failures, f.Single)
    (hn : failures ≠ []) : collect failures = some (.several failures) := by
  obtain ⟨f, rest, rfl⟩ := List.exists_cons_of_ne_nil hn
  obtain ⟨hf, hrest⟩ := List.forall_mem_cons.1 h
  rw [collect, List.foldl_cons, append_none_single hf, foldl_append_single hrest]
  rfl

theorem mapError_eq_error {x : Outcome α} {g : Failure → Failure} (h : x.mapError g = .error e) :
    ∃ cause, e = g cause := by
  cases x with
  | error cause =>
    cases h
    exact ⟨cause, rfl⟩
  | ok a => cases h

def materializeChild (c : Child) (part : Row) : Option (Outcome Item) :=
  (Traced.materializeChild c part).map (·.2)

def materializeChildren (children : List Child) (parts : List Row) : List (Option (Outcome Item)) :=
  (Traced.materializeChildren children parts).map fun b => b.map (·.2)

theorem Traced.materializeChild_eq_ite (c : Child) (part : Row) :
    materializeChild c part = if part.isEmpty then none else some (materialize c.shape part) := by
  obtain ⟨name, base, shape⟩ := c
  rw [materializeChild]

theorem materializeChild_eq_ite (c : Child) (part : Row) :
    materializeChild c part = if part.isEmpty then none else some (materialize c.shape part) := by
  rw [materializeChild, Traced.materializeChild_eq_ite]
  split <;> rfl

theorem materializeChildren_cons (c : Child) (cs : List Child) (parts : List Row) :
    materializeChildren (c :: cs) parts =
      materializeChild c (parts.headD []) :: materializeChildren cs parts.tail := by
  rw [materializeChildren, Traced.materializeChildren]
  rfl

theorem Traced.materializeChildren_zip {children : List Child} {parts : List Row}
    (h : parts.length = children.length) :
    materializeChildren children parts =
      (children.zip parts).map fun p => materializeChild p.1 p.2 := by
  induction children generalizing parts with
  | nil => rw [materializeChildren]; rfl
  | cons c cs ih =>
    obtain ⟨part, parts, rfl⟩ := List.exists_cons_of_length_eq_add_one h
    rw [materializeChildren, List.headD_cons, List.tail_cons, ih (Nat.succ.inj h)]
    rfl

theorem materializeChildren_zip {children : List Child} {parts : List Row}
    (h : parts.length = children.length) :
    materializeChildren children parts =
      (children.zip parts).map fun p => materializeChild p.1 p.2 := by
  rw [materializeChildren, Traced.materializeChildren_zip h, List.map_map]
  rfl

theorem materialize_mk (name : String) (mode : Mode) (leaves : List Leaf) (children : List Child)
    (row : Row) :
    materialize (.mk name mode leaves children) row =
      (finish mode name leaves children (partition children row).2
        (materializeChildren children (partition children row).1)).2 := by
  rw [materialize, Traced.materialize]
  rfl

section

variable (name : String) (leaves : List Leaf) (children : List Child) (row : Row)
  (built : List (Option (Outcome Item)))

theorem finish_mutable (target : Target) :
    (finish (.mutable target) name leaves children row built).2 =
      match collect (built.filterMap failure?) with
      | some e => .error (cannotBuild name e)
      | none => assign target name leaves row (children.zip (built.map item?)) := by
  rw [finish]
  cases collect (built.filterMap failure?) <;> rfl

theorem finish_immutable (build : List Item → Outcome Item) :
    finish (.immutable build) name leaves children row built =
      match collect (built.filterMap failure? ++
        missingPieces leaves row (children.zip (built.map Option.isSome))) with
      | some e => ([], .error (cannotBuild name e))
      | none => construct build name leaves row (built.map item?) := rfl

end

theorem materialize_error (h : materialize shape row = .error e) :
    ∃ cause, e = cannotBuild shape.name cause := by
  obtain ⟨name, mode, leaves, children⟩ := shape
  rw [materialize_mk] at h
  cases mode with
  | mutable target =>
    rw [finish_mutable] at h
    split at h
    · cases h
      exact ⟨_, rfl⟩
    rw [assign] at h
    split at h
    · cases h
      exact ⟨_, rfl⟩
    · exact mapError_eq_error h
  | immutable build =>
    rw [finish_immutable] at h
    split at h
    · cases h
      exact ⟨_, rfl⟩
    · exact mapError_eq_error h

theorem length_partition (children : List Child) (row : Row) :
    (partition children row).1.length = children.length := by
  rw [partition, List.length_mapIdx]

/-- The children, each with the part of a row that it takes. -/
def pieces (children : List Child) (row : Row) : List (Child × Row) :=
  children.zip (partition children row).1

theorem pieces_children (children : List Child) (row : Row) :
    (pieces children row).map (·.1) = children :=
  List.map_fst_zip (Nat.le_of_eq (length_partition children row).symm)

theorem materializeChildren_pieces (children : List Child) (row : Row) :
    materializeChildren children (partition children row).1 =
      (pieces children row).map fun p => materializeChild p.1 p.2 :=
  materializeChildren_zip (length_partition children row)

/-- The calls that the children make, in order. -/
def innerCalls (children : List Child) (row : Row) : List Call :=
  (pieces children row).flatMap fun p =>
    if p.2.isEmpty then [] else (Traced.materialize p.1.shape p.2).1

/-- All that a call needs: the value of each leaf in the rest of the row and, of each child, some
keys and the item that they make. -/
structure Complete (leaves : List Leaf) (children : List Child) (row : Row) (values : List Value)
    (items : List Item) : Prop where
  leaves : List.Forall₂ (fun l v => (partition children row).2.get? l.path = some v) leaves values
  children : List.Forall₂ (fun p item => p.2 ≠ [] ∧ materialize p.1.shape p.2 = .ok item)
    (pieces children row) items

/-- What stands in the way of a call: the children that fail, the leaves that the rest of the row
does not have, and the children without keys. -/
def obstacles (leaves : List Leaf) (children : List Child) (row : Row) : List Failure :=
  (pieces children row).filterMap (fun p => failure? (materializeChild p.1 p.2)) ++
    ((leaves.filter fun l => ((partition children row).2.get? l.path).isNone).map missingLeaf ++
      ((pieces children row).filter fun p => p.2.isEmpty).map fun p => missingChild p.1)

theorem single_of_mem_obstacles {leaves : List Leaf} {children : List Child} {row : Row}
    (h : f ∈ obstacles leaves children row) : f.Single := by
  rcases List.mem_append.1 h with h | h
  · obtain ⟨p, _, hf⟩ := List.mem_filterMap.1 h
    rw [materializeChild_eq_ite] at hf
    split at hf
    · cases hf
    · cases hm : materialize p.1.shape p.2 with
      | ok item =>
        rw [hm] at hf
        cases hf
      | error e =>
        rw [hm] at hf
        cases hf
        obtain ⟨cause, rfl⟩ := materialize_error hm
        trivial
  · rcases List.mem_append.1 h with h | h
    · obtain ⟨l, _, rfl⟩ := List.mem_map.1 h
      trivial
    · obtain ⟨p, _, rfl⟩ := List.mem_map.1 h
      trivial

theorem item?_eq_some {p : Child × Row} :
    item? (materializeChild p.1 p.2) = some item ↔
      p.2 ≠ [] ∧ materialize p.1.shape p.2 = .ok item := by
  rw [materializeChild_eq_ite]
  cases hp : p.2 with
  | nil => simp [item?]
  | cons e part => cases hm : materialize p.1.shape (e :: part) <;> simp [item?]

theorem failure?_eq_none {p : Child × Row} (hp : p.2.isEmpty = false) :
    failure? (materializeChild p.1 p.2) = none ↔ (item? (materializeChild p.1 p.2)).isSome := by
  rw [materializeChild_eq_ite, hp]
  cases hm : materialize p.1.shape p.2 <;> simp [failure?, item?]

theorem forall₂_some_iff {f : α → Option β} {xs : List α} {ys : List β} :
    List.Forall₂ (fun x y => f x = some y) xs ys ↔
      (∀ x ∈ xs, (f x).isSome) ∧ ys = xs.filterMap f := by
  induction xs generalizing ys with
  | nil => simp
  | cons x xs ih =>
    cases hx : f x with
    | none => simp [List.forall₂_cons_left_iff, hx]
    | some y => simp [List.forall₂_cons_left_iff, hx, ih]

variable {leaves : List Leaf} {children : List Child} {row : Row}

theorem complete_iff : Complete leaves children row values items ↔
    (∀ l ∈ leaves, ((partition children row).2.get? l.path).isSome) ∧
      (∀ p ∈ pieces children row, (item? (materializeChild p.1 p.2)).isSome) ∧
      values = leaves.filterMap (fun l => (partition children row).2.get? l.path) ∧
      items = (pieces children row).filterMap fun p => item? (materializeChild p.1 p.2) := by
  constructor
  · rintro ⟨hl, hc⟩
    obtain ⟨hsome, hvalues⟩ := forall₂_some_iff.1 hl
    obtain ⟨hmade, hitems⟩ := forall₂_some_iff.1 (hc.imp fun _ _ => item?_eq_some.2)
    exact ⟨hsome, hmade, hvalues, hitems⟩
  · rintro ⟨hsome, hmade, hvalues, hitems⟩
    have hc := forall₂_some_iff.2 ⟨hmade, hitems⟩
    exact ⟨forall₂_some_iff.2 ⟨hsome, hvalues⟩, hc.imp fun _ _ => item?_eq_some.1⟩

theorem obstacles_eq_nil : obstacles leaves children row = [] ↔
    (∀ l ∈ leaves, ((partition children row).2.get? l.path).isSome) ∧
      ∀ p ∈ pieces children row, (item? (materializeChild p.1 p.2)).isSome := by
  simp only [obstacles, List.append_eq_nil_iff, List.map_eq_nil_iff, List.filterMap_eq_nil_iff,
    List.filter_eq_nil_iff, Option.isNone_iff_eq_none, ← Option.ne_none_iff_isSome]
  constructor
  · rintro ⟨hfailures, hleaves, hparts⟩
    refine ⟨hleaves, fun p hp => ?_⟩
    have hpart := Bool.eq_false_iff.2 (hparts p hp)
    exact Option.ne_none_iff_isSome.2 ((failure?_eq_none hpart).1 (hfailures p hp))
  · rintro ⟨hleaves, hmade⟩
    have hpart (p : Child × Row) (hp : p ∈ pieces children row) : p.2.isEmpty = false := by
      obtain ⟨item, hitem⟩ := Option.ne_none_iff_exists'.1 (hmade p hp)
      exact Bool.eq_false_iff.2 fun he => (item?_eq_some.1 hitem).1 (List.isEmpty_iff.1 he)
    refine ⟨fun p hp => ?_, hleaves, fun p hp => Bool.eq_false_iff.1 (hpart p hp)⟩
    exact (failure?_eq_none (hpart p hp)).2 (Option.ne_none_iff_isSome.1 (hmade p hp))

theorem presentLeaves_values (leaves : List Leaf) (row : Row) :
    (presentLeaves leaves row).map (·.2) =
      (leaves.filterMap fun l => row.get? l.path).map .value := by
  rw [presentLeaves, List.map_filterMap, List.map_filterMap]
  simp only [Option.map_map]
  rfl

theorem missingPieces_eq (leaves : List Leaf) (children : List Child) (rest row : Row) :
    missingPieces leaves rest
        (children.zip ((pieces children row).map fun p =>
          (materializeChild p.1 p.2).isSome)) =
      (leaves.filter fun l => (rest.get? l.path).isNone).map missingLeaf ++
        ((pieces children row).filter fun p => p.2.isEmpty).map fun p => missingChild p.1 := by
  have hzip : children.zip ((pieces children row).map fun p => (materializeChild p.1 p.2).isSome) =
      (pieces children row).map fun p => (p.1, (materializeChild p.1 p.2).isSome) :=
    calc
      _ = ((pieces children row).map (·.1)).zip
          ((pieces children row).map fun p => (materializeChild p.1 p.2).isSome) := by
        rw [pieces_children]
      _ = _ := List.zip_map'
  have hempty (p : Child × Row) : (!(materializeChild p.1 p.2).isSome) = p.2.isEmpty := by
    rw [materializeChild_eq_ite]
    cases p.2.isEmpty <;> rfl
  rw [missingPieces, hzip, List.filter_map, List.map_map]
  congr 2
  exact List.filter_congr fun p _ => hempty p

/-- The record of a shape that is built by a constructor: the calls of the children, and what comes
of the obstacles to its own call. -/
theorem traced_eq (name : String) (build : List Item → Outcome Item)
    (leaves : List Leaf) (children : List Child) (row : Row) :
    Traced.materialize (.mk name (.immutable build) leaves children) row =
      match collect (obstacles leaves children row) with
      | some e => (innerCalls children row, .error (cannotBuild name e))
      | none =>
        let arguments :=
          (leaves.filterMap fun l => (partition children row).2.get? l.path).map .value ++
            (pieces children row).filterMap fun p => item? (materializeChild p.1 p.2)
        (innerCalls children row ++ [⟨name, arguments⟩],
          (build arguments).mapError (cannotBuild name)) := by
  have hbuilt : ((Traced.materializeChildren children (partition children row).1).map fun b =>
      b.map (·.2)) = (pieces children row).map fun p => materializeChild p.1 p.2 :=
    materializeChildren_pieces children row
  have hinner : (Traced.materializeChildren children (partition children row).1).flatMap
      (fun b => b.elim [] (·.1)) = innerCalls children row := by
    rw [Traced.materializeChildren_zip (length_partition children row), List.flatMap_map,
      innerCalls]
    refine List.flatMap_congr fun p _ => ?_
    rw [Traced.materializeChild_eq_ite]
    cases p.2.isEmpty <;> rfl
  have hobstacles : ((pieces children row).map fun p =>
        materializeChild p.1 p.2).filterMap failure? ++
      missingPieces leaves (partition children row).2
        (children.zip (((pieces children row).map fun p =>
          materializeChild p.1 p.2).map Option.isSome)) =
      obstacles leaves children row := by
    rw [List.filterMap_map, List.map_map]
    exact congrArg _ (missingPieces_eq leaves children (partition children row).2 row)
  rw [Traced.materialize]
  simp only [hbuilt, hinner, finish_immutable, hobstacles]
  cases collect (obstacles leaves children row) with
  | some e => simp
  | none => simp [construct, presentLeaves_values, List.filterMap_map]

/-- A constructor is called once, behind the calls of the children, with the values of all leaves
and then the items of all children; or else it is not called, and the failure holds everything that
stood in the way. -/
theorem traced_immutable (name : String) (build : List Item → Outcome Item)
    (leaves : List Leaf) (children : List Child) (row : Row) :
    (Traced.materialize (.mk name (.immutable build) leaves children) row).2 =
        materialize (.mk name (.immutable build) leaves children) row ∧
      (pieces children row).map (·.1) = children ∧
      ((∃ values items, Complete leaves children row values items ∧
          (values.map Item.value ++ items).length = leaves.length + children.length ∧
          Traced.materialize (.mk name (.immutable build) leaves children) row =
            (innerCalls children row ++ [⟨name, values.map .value ++ items⟩],
              (build (values.map .value ++ items)).mapError (cannotBuild name))) ∨
        (¬∃ values items, Complete leaves children row values items) ∧
          obstacles leaves children row ≠ [] ∧
          Traced.materialize (.mk name (.immutable build) leaves children) row =
            (innerCalls children row,
              .error (cannotBuild name (.several (obstacles leaves children row))))) := by
  refine ⟨rfl, pieces_children children row, ?_⟩
  rw [traced_eq]
  by_cases ho : obstacles leaves children row = []
  · obtain ⟨hleaves, hmade⟩ := obstacles_eq_nil.1 ho
    have hc := complete_iff.2 ⟨hleaves, hmade, rfl, rfl⟩
    refine .inl ⟨_, _, hc, ?_, ?_⟩
    · have hlength := congrArg List.length (pieces_children children row)
      rw [List.length_map] at hlength
      rw [List.length_append, List.length_map, ← hc.leaves.length_eq, ← hc.children.length_eq,
        hlength]
    · rw [ho]
      rfl
  · refine .inr ⟨?_, ho, ?_⟩
    · rintro ⟨values, items, hc⟩
      obtain ⟨hleaves, hmade, _⟩ := complete_iff.1 hc
      exact ho (obstacles_eq_nil.2 ⟨hleaves, hmade⟩)
    · rw [collect_single (fun f => single_of_mem_obstacles) ho]

end Projection

end NeutralQuery
