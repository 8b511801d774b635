import Mathlib.Data.List.Forall2
import NeutralQuery.Proofs.Plan.Typing
import NeutralQuery.Proofs.Row.Places
import NeutralQuery.Sql.Scan

namespace NeutralQuery

namespace Row

variable {row : Row}

theorem walk?_append (a b : List String) (v : Value) :
    walk? (a ++ b) v = (walk? a v).bind (walk? b) := by
  induction a generalizing v with
  | nil => rfl
  | cons segment a ih =>
    cases v with
    | record row =>
      rw [List.cons_append, walk?, walk?]
      cases find? row segment with
      | none => rfl
      | some w => exact ih w
    | _ => rfl

theorem walk?_null (h : walk? segments .null = some v) : v = .null := by
  cases segments with
  | nil => exact (Option.some.inj h).symm
  | cons _ _ => cases h

theorem Plain.get_beneath (hr : Plain row) (h : row.get above = .null)
    (hp : Text.split '.' above <+: Text.split '.' path) : row.get path = .null := by
  obtain ⟨rest, hrest⟩ := hp
  rw [get, hr.get?_eq] at h ⊢
  rw [← hrest, walk?_append]
  cases ha : walk? (Text.split '.' above) (.record row) with
  | none => rfl
  | some w =>
    rw [ha] at h
    cases h
    cases hw : walk? rest .null with
    | none => simp [hw]
    | some u => simp [hw, walk?_null hw]

end Row

namespace Sql

/-- A path lies at another one or beneath it. -/
def Within (path top : String) : Prop := Text.split '.' top <+: Text.split '.' path

instance : Decidable (Within path top) := inferInstanceAs (Decidable (_ <+: _))

/-- A path lies beneath another one. -/
def Beneath (path top : String) : Prop := Within path top ∧ path ≠ top

instance : Decidable (Beneath path top) := inferInstanceAs (Decidable (_ ∧ _))

theorem Within.eq_or_beneath (h : Within path top) : path = top ∨ Beneath path top := by
  by_cases he : path = top
  · exact .inl he
  · exact .inr ⟨h, he⟩

theorem within_or_apart (a b : String) :
    Within a b ∨ Beneath b a ∨ Apart (Text.split '.' a) (Text.split '.' b) := by
  by_cases hab : Within a b
  · exact .inl hab
  · by_cases hba : Within b a
    · refine .inr (.inl ⟨hba, ?_⟩)
      rintro rfl
      exact hab hba
    · exact .inr (.inr ⟨hba, hab⟩)

theorem split_parentPath (h : parentPath? path = some parent) :
    Text.split '.' parent = (Text.split '.' path).dropLast := by
  rw [parentPath?] at h
  split at h
  · cases h
  · next hne =>
    cases h
    refine Text.split_join hne fun part hm => ?_
    exact Text.solid_of_mem_split ((List.dropLast_prefix _).subset hm)

theorem within_parentPath (h : parentPath? path = some parent) : Within path parent := by
  rw [Within, split_parentPath h]
  exact List.dropLast_prefix _

theorem Beneath.exists_parent (h : Beneath path top) :
    ∃ parent, parentPath? path = some parent ∧ Within parent top := by
  obtain ⟨hp, hne⟩ := h
  have habove : Text.split '.' top <+: (Text.split '.' path).dropLast := by
    rw [Within, ← List.dropLast_concat_getLast (Text.split_ne_nil '.' path)] at hp
    rcases List.prefix_concat_iff.1 hp with he | hp
    · rw [List.dropLast_concat_getLast] at he
      exact absurd (Text.eq_of_split he.symm) hne
    · exact hp
  cases hparent : parentPath? path with
  | none =>
    rw [parentPath?] at hparent
    split at hparent
    · next hnil => exact absurd (List.prefix_nil.1 (hnil ▸ habove)) (Text.split_ne_nil '.' top)
    · cases hparent
  | some parent =>
    rw [← split_parentPath hparent] at habove
    exact ⟨parent, rfl, habove⟩

section Columns

variable {row : Row}

theorem plain_putColumn (hr : row.Plain) (column : String) (v : Value) :
    (putColumn true row column v).Plain := by
  rw [Sql.putColumn, if_neg (by decide)]
  split
  · exact hr
  · exact hr.set column v

theorem putColumn_null (row : Row) (column : String) :
    putColumn true row column .null =
      if parentPresent row column then row.set column .null else row := by
  rw [putColumn, if_neg (by decide)]
  cases parentPresent row column <;> rfl

theorem putColumn_of_ne (row : Row) (column : String) (h : v ≠ .null) :
    putColumn true row column v = row.set column v := by
  rw [putColumn, if_neg (by decide), if_neg]
  exact fun hn => h (Value.isNull_iff.1 (Bool.and_eq_true_iff.1 hn).1)

theorem get?_putColumn_of_apart (h : Apart (Text.split '.' column) (Text.split '.' path)) :
    (putColumn true row column v).get? path = row.get? path := by
  rw [putColumn, if_neg (by decide)]
  split
  · rfl
  · exact Row.get?_set_of_apart h

theorem get_putColumn_self (hr : row.Plain) (column : String) :
    (putColumn true row column .null).get column = .null := by
  rw [putColumn_null]
  split
  · rw [Row.get, hr.get?_set_self, Option.getD_some]
  · next habsent =>
    cases hparent : parentPath? column with
    | none => exact absurd (by rw [parentPresent, hparent]; rfl) habsent
    | some parent =>
      rw [parentPresent, hparent, Option.all_some, Bool.not_eq_true', Bool.not_eq_false] at habsent
      exact hr.get_beneath (Value.isNull_iff.1 habsent) (within_parentPath hparent)

theorem putColumn_beneath (hr : row.Plain) (hn : row.get path = .null)
    (hb : Beneath column path) : putColumn true row column .null = row := by
  obtain ⟨parent, hparent, hin⟩ := hb.exists_parent
  have habsent : parentPresent row column = false := by
    rw [parentPresent, hparent, Option.all_some, hr.get_beneath hn hin]
    rfl
  rw [putColumn_null, habsent, if_neg (by decide)]

end Columns

theorem normalize_ne_null (h : v ≠ .null) : normalize v ≠ .null := by
  cases v with
  | null => exact absurd rfl h
  | int width n =>
    intro he
    cases width <;> cases he
  | _ => exact fun he => nomatch he

/-- Every path is listed after the paths above it. -/
def Downward (columns : List String) : Prop := columns.Pairwise fun a b => ¬Beneath a b

instance : Decidable (Downward columns) := inferInstanceAs (Decidable (List.Pairwise _ _))

/-- The columns of a line with their values; missing values are null. -/
def line (q : Query) (values : List Value) : List (String × Value) :=
  q.columns.zip (values ++ List.replicate (q.columns.length - values.length) .null)

theorem line_columns (q : Query) (values : List Value) :
    (line q values).map (·.1) = q.columns := by
  rw [line]
  refine List.map_fst_zip ?_
  rw [List.length_append, List.length_replicate]
  omega

/-- Puts one column after the other into a nested row. -/
def putAll (columns : List (String × Value)) (row : Row) : Row :=
  columns.foldl (fun row c => putColumn true row c.1 (normalize c.2)) row

theorem rowOf_nested (hn : q.nested = true) (values : List Value) :
    rowOf q values = putAll (line q values) [] := by
  rw [rowOf, hn]
  rfl

section Lines

variable {row : Row} {columns : List (String × Value)}

theorem plain_putAll (hr : row.Plain) (columns : List (String × Value)) :
    (putAll columns row).Plain := by
  induction columns generalizing row with
  | nil => exact hr
  | cons c rest ih => exact ih (plain_putColumn hr c.1 (normalize c.2))

theorem get?_putAll_of_apart
    (h : ∀ c ∈ columns, Apart (Text.split '.' c.1) (Text.split '.' path)) :
    (putAll columns row).get? path = row.get? path := by
  induction columns generalizing row with
  | nil => rfl
  | cons c rest ih =>
    calc (putAll (c :: rest) row).get? path
        = (putColumn true row c.1 (normalize c.2)).get? path :=
          ih fun c' hc => h c' (List.mem_cons_of_mem c hc)
      _ = row.get? path := get?_putColumn_of_apart (h c List.mem_cons_self)

theorem get_putColumn_null (hr : row.Plain) (hn : row.get path = .null)
    (habove : ¬Beneath path column) (hnull : Within column path → v = .null) :
    (putColumn true row column (normalize v)).get path = .null := by
  rcases within_or_apart column path with hin | hup | hapart
  · rw [hnull hin]
    rcases hin.eq_or_beneath with rfl | hb
    · exact get_putColumn_self hr column
    · exact (putColumn_beneath hr hn hb).symm ▸ hn
  · exact absurd hup habove
  · rw [Row.get, get?_putColumn_of_apart hapart]
    exact hn

theorem get_putAll_null (hr : row.Plain) (hn : row.get path = .null)
    (habove : ∀ c ∈ columns, ¬Beneath path c.1)
    (hnull : ∀ c ∈ columns, Within c.1 path → c.2 = .null) :
    (putAll columns row).get path = .null := by
  induction columns generalizing row with
  | nil => exact hn
  | cons c rest ih =>
    have hfirst :=
      get_putColumn_null hr hn (habove c List.mem_cons_self) (hnull c List.mem_cons_self)
    exact ih (plain_putColumn hr c.1 (normalize c.2)) hfirst
      (fun c' hc => habove c' (List.mem_cons_of_mem c hc))
      (fun c' hc => hnull c' (List.mem_cons_of_mem c hc))

/-- The value of a path among columns: that of the last column that lists it. -/
def valueOf? (columns : List (String × Value)) (path : String) : Option Value :=
  Row.find? columns.reverse path

theorem valueOf?_eq_some (h : valueOf? columns path = some v) :
    ∃ before after, columns = before ++ (path, v) :: after ∧ ∀ c ∈ after, c.1 ≠ path := by
  obtain ⟨⟨name, w⟩, hf, rfl⟩ := Option.map_eq_some_iff.1 h
  obtain ⟨hname, after, before, hsplit, hafter⟩ := List.find?_eq_some_iff_append.1 hf
  refine ⟨before.reverse, after.reverse, ?_, ?_⟩
  · cases beq_iff_eq.1 hname
    rw [← List.reverse_reverse columns, hsplit]
    simp
  · intro c hc he
    have := hafter c (List.mem_reverse.1 hc)
    simp [he] at this

/-- A row holds what its columns say: no value where the column of a path and those beneath it are
null, and the value of the column where it has one and no column lies beneath it. -/
structure Rebuilt (columns : List (String × Value)) (row : Row) : Prop where
  absent : ∀ path, valueOf? columns path = some .null →
    (∀ c ∈ columns, Beneath c.1 path → c.2 = .null) → row.get path = .null
  present : ∀ path v, valueOf? columns path = some v → v ≠ .null →
    (∀ c ∈ columns, ¬Beneath c.1 path) → row.get? path = some (normalize v)

theorem putAll_append_cons (before after : List (String × Value)) (path : String) (v : Value) :
    putAll (before ++ (path, v) :: after) row =
      putAll after (putColumn true (putAll before row) path (normalize v)) := by
  rw [putAll, List.foldl_append]
  rfl

theorem Downward.later {before after : List (String × Value)}
    (hd : Downward ((before ++ (path, v) :: after).map (·.1))) (hc : c ∈ after) :
    ¬Beneath path c.1 := by
  rw [Downward, List.map_append, List.pairwise_append] at hd
  exact List.rel_of_pairwise_cons hd.2.1 (List.mem_map_of_mem hc)

theorem rebuilt_putAll (hd : Downward (columns.map (·.1))) :
    Rebuilt columns (putAll columns []) := by
  constructor
  · intro path hv hnull
    obtain ⟨before, after, rfl, hlast⟩ := valueOf?_eq_some hv
    have hbefore := plain_putAll Row.Plain.nil before
    have hself := get_putColumn_self hbefore path
    rw [putAll_append_cons]
    refine get_putAll_null (plain_putColumn hbefore path _) hself (fun c hc => hd.later hc) ?_
    intro c hc hin
    exact hnull c (List.mem_append_right _ (List.mem_cons_of_mem _ hc)) ⟨hin, hlast c hc⟩
  · intro path v hv hne hnone
    obtain ⟨before, after, rfl, hlast⟩ := valueOf?_eq_some hv
    have hbefore := plain_putAll Row.Plain.nil before
    have hapart : ∀ c ∈ after, Apart (Text.split '.' c.1) (Text.split '.' path) := by
      intro c hc
      have hmem := List.mem_append_right before (List.mem_cons_of_mem (path, v) hc)
      rcases within_or_apart c.1 path with hin | hup | hapart
      · exact absurd ⟨hin, hlast c hc⟩ (hnone c hmem)
      · exact absurd hup (hd.later hc)
      · exact hapart
    rw [putAll_append_cons, get?_putAll_of_apart hapart,
      putColumn_of_ne _ _ (normalize_ne_null hne), hbefore.get?_set_self]

end Lines

theorem ResultSet.read_eq_ok {r : ResultSet} (h : r.read q = .ok rows) :
    rows = r.lines.map (rowOf q) := by
  rw [read] at h
  split at h
  · cases h
  · cases h
  · cases h
  · cases h
    rfl

/-- The rows that are read hold what the columns of their lines say. -/
theorem ResultSet.read_rebuilt {r : ResultSet} {q : Query} (hn : q.nested = true)
    (hd : Downward q.columns) (hr : r.read q = .ok rows) :
    List.Forall₂ (fun values row => Rebuilt (line q values) row) r.lines rows := by
  rw [read_eq_ok hr, List.forall₂_map_right_iff, List.forall₂_same]
  intro values _
  rw [rowOf_nested hn]
  exact rebuilt_putAll ((line_columns q values).symm ▸ hd)

/-- People with their departments and the companies of those. -/
def staff : Query where
  sql := "SELECT t0.id, t0.name, t1, t2 FROM people t0"
  params := []
  columns := ["id", "name", "department", "department.company", "department.company.city"]
  nested := true

def staffResults : ResultSet where
  lines :=
    [[.int .int32 1, .text "Ann"],
     [.int .int32 2, .null, .record [("title", .text "R&D")], .null, .null]]

theorem read_rebuilt_staff : ∃ rows, staffResults.read staff = .ok rows ∧
    List.Forall₂ (fun values row => Rebuilt (line staff values) row) staffResults.lines rows := by
  have hd : Downward staff.columns := by decide
  have hr : staffResults.read staff = .ok (staffResults.lines.map (rowOf staff)) := rfl
  exact ⟨_, hr, ResultSet.read_rebuilt rfl hd hr⟩

example : staffResults.lines.map (rowOf staff) =
    [[("id", .int .int64 1), ("name", .text "Ann"), ("department", .null)],
     [("id", .int .int64 2), ("name", .null),
      ("department", .record [("title", .text "R&D"), ("company", .null)])]] := by rfl

end Sql

end NeutralQuery
