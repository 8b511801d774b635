import Mathlib
import NeutralQuery.Proofs.Projection.Pieces
import NeutralQuery.Proofs.Row.Flattening

namespace NeutralQuery.Projection

open Row

variable {row : Row} {base : String}

theorem takeUnder_eq (base : String) (row : Row) :
    takeUnder base row =
      ((under base (beside base row)).foldl (fun part e => put e.1 e.2 part) (child row base),
        outside base (beside base row)) := by
  rw [takeUnder, child, beside]
  cases find? row base with
  | none => rfl
  | some v => cases v <;> rfl

/-- A nested row has nothing under a path but the record at that key. -/
theorem takeUnder_nested (hn : Nested row) (base : String) :
    takeUnder base row = (child row base, beside base row) := by
  have hsolid := (hn.beside base).solid
  rw [takeUnder_eq, under_eq_nil hsolid, outside_eq_self hsolid]
  rfl

/-- A path can be taken out of a row: it is one key, or no value lies under it. -/
def Clear (base : String) (row : Row) : Prop :=
  Text.Solid '.' base ∨ under base (flatten row) = []

theorem takeUnder_flatten (hn : Nested row) (hc : Clear base row) :
    takeUnder base (flatten row) = (flatten (child row base), flatten (beside base row)) := by
  obtain ⟨hchild, hbeside⟩ := find?_bare (bare_of_mem_flatten row) base
  rw [takeUnder_eq, hchild, hbeside]
  by_cases hb : Text.Solid '.' base
  · have hnodup : ((([] : Row) ++ flatten (child row base)).map (·.1)).Nodup :=
      nodup_flatten (hn.child base)
    rw [under_flatten hn hb, outside_flatten hn hb, foldl_put_of_nodup hnodup, List.nil_append]
  · have hnone := hn.find?_dotted hb
    have hunder : under base (flatten row) = [] := hc.resolve_left hb
    rw [hunder, outside_of_under hunder, child_eq_nil hnone, beside_eq_self hnone]
    rfl

theorem Clear.beside (hn : Nested row) (h : Clear base row) (key : String) :
    Clear base (Row.beside key row) := by
  refine h.imp_right fun hu => ?_
  have hs : (under base (flatten (Row.beside key row))).Sublist (under base (flatten row)) :=
    (flatten_beside_sublist hn key).filterMap _
  rw [hu] at hs
  exact List.sublist_nil.1 hs

/-- Parts of a nested row, and the parts of the flattened row beside them. -/
theorem takeParts_flatten {order : List (Nat × String)} (hn : Nested row)
    (hc : ∀ o ∈ order, Clear o.2 row) :
    takeParts order (flatten row) =
        ((takeParts order row).1.map fun p => (p.1, flatten p.2),
          flatten (takeParts order row).2) ∧
      (∀ p ∈ (takeParts order row).1, Nested p.2) ∧ Nested (takeParts order row).2 := by
  induction order generalizing row with
  | nil => exact ⟨rfl, nofun, hn⟩
  | cons o order ih =>
    obtain ⟨i, base⟩ := o
    obtain ⟨hbase, horder⟩ := List.forall_mem_cons.1 hc
    obtain ⟨hparts, hnested, hrest⟩ :=
      ih (hn.beside base) fun o ho => (horder o ho).beside hn base
    simp only [takeParts, takeUnder_nested hn, takeUnder_flatten hn hbase, hparts]
    exact ⟨rfl, List.forall_mem_cons.2 ⟨hn.child base, hnested⟩, hrest⟩

theorem mem_takingOrder {children : List Child} (h : o ∈ takingOrder children) :
    ∃ c ∈ children, c.base = o.2 := by
  rw [takingOrder, List.mem_mergeSort] at h
  obtain ⟨i, hi, rfl⟩ := List.mem_mapIdx.1 h
  exact ⟨_, List.getElem_mem hi, rfl⟩

/-- The part of a child, by its place. -/
def partAt (parts : List (Nat × Row)) (i : Nat) : Row :=
  ((parts.find? fun p => p.1 == i).map (·.2)).getD []

theorem partAt_flatten (parts : List (Nat × Row)) (i : Nat) :
    partAt (parts.map fun p => (p.1, flatten p.2)) i = flatten (partAt parts i) := by
  induction parts with
  | nil => rfl
  | cons p parts ih =>
    rw [partAt] at ih ⊢
    rw [partAt, List.map_cons, List.find?_cons, List.find?_cons]
    cases p.1 == i with
    | true => rfl
    | false => exact ih

theorem nested_partAt {parts : List (Nat × Row)} (h : ∀ p ∈ parts, Nested p.2) (i : Nat) :
    Nested (partAt parts i) := by
  rw [partAt]
  cases hf : parts.find? fun p => p.1 == i with
  | none => trivial
  | some p => exact h p (List.mem_of_find?_eq_some hf)

theorem partition_flatten {children : List Child} (hn : Nested row)
    (hc : ∀ c ∈ children, Clear c.base row) :
    partition children (flatten row) =
        ((partition children row).1.map flatten, flatten (partition children row).2) ∧
      (∀ part ∈ (partition children row).1, Nested part) ∧ Nested (partition children row).2 := by
  have horder : ∀ o ∈ takingOrder children, Clear o.2 row := by
    intro o ho
    obtain ⟨c, hm, hb⟩ := mem_takingOrder ho
    exact hb ▸ hc c hm
  obtain ⟨hparts, hnested, hrest⟩ := takeParts_flatten hn horder
  refine ⟨?_, ?_, hrest⟩
  · rw [partition, hparts, Prod.mk.injEq]
    refine ⟨List.ext_getElem? fun i => ?_, rfl⟩
    rw [List.getElem?_map, List.getElem?_mapIdx, partition, List.getElem?_mapIdx, Option.map_map]
    exact Option.map_congr fun _ _ => partAt_flatten _ i
  · intro part hm
    obtain ⟨i, _, rfl⟩ := List.mem_mapIdx.1 hm
    exact nested_partAt hnested i

theorem partition_nil (row : Row) : partition [] row = ([], row) := by
  have horder : takingOrder [] = [] := by cbv
  rw [partition, horder]
  rfl

section

variable {leaves : List Leaf} {left right : Row}

theorem presentLeaves_congr (h : ∀ l ∈ leaves, left.get? l.path = right.get? l.path) :
    presentLeaves leaves left = presentLeaves leaves right :=
  List.filterMap_congr fun l hl => by rw [h l hl]

theorem missingPieces_congr (h : ∀ l ∈ leaves, left.get? l.path = right.get? l.path)
    (children : List (Child × Bool)) :
    missingPieces leaves left children = missingPieces leaves right children := by
  have hfilter : leaves.filter (fun l => (left.get? l.path).isNone) =
      leaves.filter fun l => (right.get? l.path).isNone :=
    List.filter_congr fun l hl => by rw [h l hl]
  rw [missingPieces, missingPieces, hfilter]

theorem finish_congr (h : ∀ l ∈ leaves, left.get? l.path = right.get? l.path) (mode : Mode)
    (name : String) (children : List Child) (built : List (Option (Outcome Item))) :
    finish mode name leaves children left built = finish mode name leaves children right built := by
  have hpresent := presentLeaves_congr h
  have hmissing := missingPieces_congr h
  cases mode with
  | mutable target => simp only [finish, assign, hpresent]
  | immutable build => simp only [finish, construct, hpresent, hmissing]

end

mutual

/-- A condition holds of a shape and its row, and of every child and the part of the row that the
child takes. -/
def Throughout (P : List Leaf → List Child → Row → Prop) : Shape → Row → Prop
  | .mk _ _ leaves children, row =>
    P leaves children row ∧ ThroughoutAll P children (partition children row).1

def ThroughoutAll (P : List Leaf → List Child → Row → Prop) : List Child → List Row → Prop
  | [], _ => True
  | c :: cs, parts => ThroughoutChild P c (parts.headD []) ∧ ThroughoutAll P cs parts.tail

def ThroughoutChild (P : List Leaf → List Child → Row → Prop) : Child → Row → Prop
  | ⟨_, _, shape⟩, part => Throughout P shape part

end

def LeavesBare (leaves : List Leaf) (children : List Child) (row : Row) : Prop :=
  ∀ l ∈ leaves, ((partition children row).2.get? l.path).all isBare = true

def ChildrenClear (_ : List Leaf) (children : List Child) (row : Row) : Prop :=
  ∀ c ∈ children, Clear c.base row

/-- No leaf of a shape reads a record. -/
def ReadsBare : Shape → Row → Prop := Throughout LeavesBare

/-- Nothing lies under the dotted path of a child. -/
def AllClear : Shape → Row → Prop := Throughout ChildrenClear

mutual

theorem materialize_eq : ∀ (shape : Shape) {row : Row}, Nested row →
    Throughout LeavesBare shape row → Throughout ChildrenClear shape row →
    materialize shape (flatten row) = materialize shape row
  | .mk name mode leaves children, row, hn, hr, hc => by
    obtain ⟨hparts, hnested, hrest⟩ := partition_flatten hn hc.1
    have hchildren := materializeChildren_eq children hnested hr.2 hc.2
    have hleaves : ∀ l ∈ leaves, (flatten (partition children row).2).get? l.path =
        (partition children row).2.get? l.path := by
      intro l hl
      rw [get?_flatten hrest]
      have hbare := hr.1 l hl
      cases hg : (partition children row).2.get? l.path with
      | none => rfl
      | some v =>
        rw [hg, Option.all_some] at hbare
        exact Option.filter_some_pos hbare
    rw [materialize_mk, materialize_mk, hparts, hchildren, finish_congr hleaves]

theorem materializeChildren_eq : ∀ (children : List Child) {parts : List Row},
    (∀ part ∈ parts, Nested part) → ThroughoutAll LeavesBare children parts →
    ThroughoutAll ChildrenClear children parts →
    materializeChildren children (parts.map flatten) = materializeChildren children parts
  | [], _, _, _, _ => rfl
  | c :: cs, parts, hn, hr, hc => by
    have hhead : Nested (parts.headD []) := by
      cases parts with
      | nil => trivial
      | cons part parts => exact hn part List.mem_cons_self
    have hflat : (parts.map flatten).headD [] = flatten (parts.headD []) := by
      cases parts <;> rfl
    have htail : (parts.map flatten).tail = parts.tail.map flatten := by
      cases parts <;> rfl
    rw [materializeChildren_cons, materializeChildren_cons, hflat, htail,
      materializeChild_eq c hhead hr.1 hc.1,
      materializeChildren_eq cs (fun part hm => hn part (List.mem_of_mem_tail hm)) hr.2 hc.2]

theorem materializeChild_eq : ∀ (c : Child) {part : Row}, Nested part →
    ThroughoutChild LeavesBare c part → ThroughoutChild ChildrenClear c part →
    materializeChild c (flatten part) = materializeChild c part
  | ⟨name, base, shape⟩, part, hn, hr, hc => by
    have hempty : (flatten part).isEmpty = part.isEmpty := by
      rw [Bool.eq_iff_iff, List.isEmpty_iff, List.isEmpty_iff]
      exact flatten_eq_nil hn
    rw [materializeChild_eq_ite, materializeChild_eq_ite, hempty, materialize_eq shape hn hr hc]

end

/-- A shape makes the same of a nested row and of the flattened one, be it an item or a failure, as
long as no leaf reads a record and nothing lies under the dotted path of a child. -/
theorem materialize_flatten {shape : Shape} {row : Row} (hn : Nested row)
    (hr : ReadsBare shape row) (hc : AllClear shape row) :
    materialize shape (flatten row) = materialize shape row :=
  materialize_eq shape hn hr hc

end NeutralQuery.Projection

namespace NeutralQuery.Sample.Badges

open Projection Row

def teamFields : List Leaf := [⟨"name", ""⟩]

def badgeFields : List Leaf := [⟨"number", ""⟩]

def memberParts : List Child :=
  [⟨"team", "team", .mk "team" (.mutable {}) teamFields []⟩,
    ⟨"badge", "card.badge", .mk "badge" (.mutable {}) badgeFields []⟩]

def member : Shape := .mk "member" (.mutable {}) [⟨"id", ""⟩, ⟨"zip", "address.zip"⟩] memberParts

def enlisted : Row :=
  [("id", .ofInt64 1), ("address", .record [("zip", .text "0150")]),
    ("team", .record [("name", .text "red")])]

def badged : Row :=
  [("id", .ofInt64 2), ("card", .record [("badge", .record [("number", .ofInt64 7)])])]

theorem takingOrder_memberParts : takingOrder memberParts = [(1, "card.badge"), (0, "team")] := by
  cbv

theorem partition_enlisted :
    partition memberParts enlisted =
      ([[("name", .text "red")], []],
        [("id", .ofInt64 1), ("address", .record [("zip", .text "0150")])]) := by
  rw [partition, takingOrder_memberParts]
  rfl

theorem partition_badged : partition memberParts badged = ([[], []], badged) := by
  rw [partition, takingOrder_memberParts]
  rfl

theorem partition_flatten_badged :
    partition memberParts (flatten badged) =
      ([[], [("number", .ofInt64 7)]], [("id", .ofInt64 2)]) := by
  rw [partition, takingOrder_memberParts]
  rfl

variable {row team badge rest : Row}

theorem throughout_member {P : List Leaf → List Child → Row → Prop}
    (h : partition memberParts row = ([team, badge], rest)) :
    Throughout P member row ↔
      P member.leaves memberParts row ∧ P teamFields [] team ∧ P badgeFields [] badge := by
  rw [member, Throughout, h]
  simp only [memberParts, ThroughoutAll, ThroughoutChild, Throughout, and_true]
  rfl

theorem materialize_member (h : partition memberParts row = ([team, badge], rest)) :
    materialize member row =
      (finish member.mode member.name member.leaves memberParts rest
        [if team.isEmpty then none else some (finish (.mutable {}) "team" teamFields [] team []).2,
          if badge.isEmpty then none
          else some (finish (.mutable {}) "badge" badgeFields [] badge []).2]).2 := by
  rw [member, materialize_mk, h]
  simp only [memberParts, materializeChildren_cons, materializeChild_eq_ite, materialize_mk,
    partition_nil]
  rfl

theorem nested_enlisted : Nested enlisted :=
  ⟨by decide, rfl, trivial, by decide, rfl, ⟨nofun, by decide, rfl, trivial, trivial⟩, by decide,
    rfl, ⟨nofun, by decide, rfl, trivial, trivial⟩, trivial⟩

theorem nested_badged : Nested badged :=
  ⟨by decide, rfl, trivial, by decide, rfl, ⟨nofun, by decide, rfl,
    ⟨nofun, by decide, rfl, trivial, trivial⟩, trivial⟩, trivial⟩

theorem readsBare_enlisted : ReadsBare member enlisted := by
  refine (throughout_member partition_enlisted).2 ?_
  simp only [LeavesBare, partition_enlisted, partition_nil]
  decide

theorem readsBare_badged : ReadsBare member badged := by
  refine (throughout_member partition_badged).2 ?_
  simp only [LeavesBare, partition_badged, partition_nil]
  decide

theorem allClear_enlisted : AllClear member enlisted := by
  refine (throughout_member partition_enlisted).2 ⟨?_, nofun, nofun⟩
  exact List.forall_mem_cons.2 ⟨.inl (by decide), List.forall_mem_singleton.2 (.inr rfl)⟩

end NeutralQuery.Sample.Badges

namespace NeutralQuery.Projection

open Row Sample.Badges

theorem materialize_flatten_enlisted :
    Nested enlisted ∧ ReadsBare member enlisted ∧ AllClear member enlisted ∧
      materialize member enlisted = .ok (.record
        [("id", .value (.ofInt64 1)), ("zip", .value (.text "0150")),
          ("team", .record [("name", .value (.text "red"))])]) ∧
      materialize member (flatten enlisted) = materialize member enlisted := by
  refine ⟨nested_enlisted, readsBare_enlisted, allClear_enlisted, ?_,
    materialize_flatten nested_enlisted readsBare_enlisted allClear_enlisted⟩
  rw [materialize_member partition_enlisted]
  rfl

/-- A badge that lies under a dotted path is lost in the nested row only. -/
theorem materialize_flatten_badged :
    Nested badged ∧ ReadsBare member badged ∧
      materialize member badged = .ok (.record [("id", .value (.ofInt64 2))]) ∧
      materialize member (flatten badged) = .ok (.record
        [("id", .value (.ofInt64 2)), ("badge", .record [("number", .value (.ofInt64 7))])]) := by
  refine ⟨nested_badged, readsBare_badged, ?_, ?_⟩
  · rw [materialize_member partition_badged]
    rfl
  · rw [materialize_member partition_flatten_badged]
    rfl

end NeutralQuery.Projection
