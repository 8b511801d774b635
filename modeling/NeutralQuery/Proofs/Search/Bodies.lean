import NeutralQuery.Proofs.Json.Records
import NeutralQuery.Search.Run

namespace NeutralQuery.Search

open Json (Writable)

/-- The key after which a message asks for groups. -/
def Message.after? (m : Message) : Option Json :=
  (((m.body.get? "aggregations").bind (·.get? groupsName)).bind (·.get? "composite")).bind
    (·.get? "after")

variable {r : Request} {keys : List GroupKey} {accumulators : List Accumulator}
  {after : Option Row}

theorem writable_single {v : Value} : Writable (single key v) ↔ Writable v := by
  simp [single]

theorem writable_fieldEntry (path : String) : ∀ e ∈ fieldEntry path, Writable e.2 := by
  rw [fieldEntry]
  split <;> simp

theorem writable_metric (h : metric acc = .ok (some v)) : Writable v := by
  have hfield := writable_fieldEntry acc.operand
  rw [metric] at h
  cases hf : acc.function with
  | count | other name =>
    rw [hf] at h
    cases h
  | countDistinct =>
    rw [hf] at h
    cases h
    rw [writable_single, Json.writable_record]
    exact List.forall_mem_append.2 ⟨hfield, List.forall_mem_singleton.2 (Json.writable_int _ _)⟩
  | _ =>
    rw [hf] at h
    cases h
    rw [writable_single, Json.writable_record]
    exact hfield

theorem writable_metrics (h : metrics accumulators = .ok row) : ∀ e ∈ row, Writable e.2 := by
  obtain ⟨entries, hentries, rfl⟩ := map_eq_ok h
  intro e he
  obtain ⟨⟨name, found⟩, hm, hfound⟩ := List.mem_filterMap.1 (Row.mem_of_mem_ofList he)
  obtain ⟨v, rfl, rfl⟩ := Option.map_eq_some_iff.1 hfound
  obtain ⟨acc, _, hacc⟩ := exists_of_mapM hentries hm
  obtain ⟨m, hmetric, hentry⟩ := map_eq_ok hacc
  cases hentry
  exact writable_metric hmetric

theorem writable_keySource (i : Nat) (key : GroupKey) : Writable (keySource i key) := by
  rw [keySource, writable_single, writable_single, Json.writable_record]
  exact List.forall_mem_append.2
    ⟨writable_fieldEntry key.path, List.forall_mem_singleton.2 (Json.writable_bool true)⟩

theorem writable_aggregationsEntry {metrics : Row} (h : ∀ e ∈ metrics, Writable e.2) :
    ∀ e ∈ aggregationsEntry metrics, Writable e.2 := by
  rw [aggregationsEntry]
  split
  · simp
  · exact List.forall_mem_singleton.2 (Json.writable_record.2 h)

theorem writable_composite (size : Int) (hm : ∀ e ∈ r.metrics, Writable e.2)
    (ha : ∀ key ∈ after, Writable (.record key)) : Writable (r.composite size after) := by
  have hsources : Writable (.list (((r.group.map (·.1)).getD []).mapIdx keySource)) := by
    rw [Json.writable_list]
    intro v hv
    obtain ⟨i, _, rfl⟩ := List.mem_mapIdx.1 hv
    exact writable_keySource _ _
  rw [Request.composite.eq_def, Json.writable_record, List.forall_mem_cons]
  refine ⟨?_, writable_aggregationsEntry hm⟩
  rw [Json.writable_record]
  refine List.forall_mem_append.2 ⟨?_, ?_⟩
  · exact List.forall_mem_cons.2 ⟨Json.writable_int _ _, List.forall_mem_singleton.2 hsources⟩
  · cases after with
    | none => simp
    | some key => exact List.forall_mem_singleton.2 (ha key rfl)

theorem body_grouped (hg : r.group = some (keys, accumulators)) (hk : keys ≠ [])
    (maxResults : Int) (after : Option Row) :
    r.body maxResults after = .record [("query", r.clause.body), ("size", .ofInt 0),
      ("aggregations", single groupsName (r.composite maxResults after))] := by
  obtain ⟨key, rest, rfl⟩ := List.exists_cons_of_ne_nil hk
  rw [Request.body, hg]

/-- A request for groups can be written as soon as its query can. -/
theorem writable_body_iff (hg : r.group = some (keys, accumulators)) (hk : keys ≠ [])
    (maxResults : Int) (hm : ∀ e ∈ r.metrics, Writable e.2)
    (ha : ∀ key ∈ after, Writable (.record key)) :
    Writable (r.body maxResults after) ↔ Writable r.clause.body := by
  rw [body_grouped hg hk, Json.writable_record, List.forall_mem_cons]
  refine and_iff_left (List.forall_mem_cons.2 ⟨Json.writable_int _ _, ?_⟩)
  exact List.forall_mem_singleton.2 (writable_single.2 (writable_composite maxResults hm ha))

/-- The key of a request is in its message, and there is none where the request has none. -/
theorem after?_of_body (hg : r.group = some (keys, accumulators)) (hk : keys ≠ [])
    (h : Json.ofValue (r.body maxResults after) = .ok body) (path : String) :
    (after = none → Message.after? ⟨path, body⟩ = none) ∧
      ∀ key, after = some key → ∃ sent, Json.ofValue (.record key) = .ok sent ∧
        Message.after? ⟨path, body⟩ = some sent := by
  rw [body_grouped hg hk] at h
  obtain ⟨aggregations, haggregations, hget⟩ :=
    (Json.get?_ofValue (by simp) h "aggregations").2 _ rfl
  obtain ⟨groups, hgroups, hget'⟩ :=
    (Json.get?_ofValue (by simp) haggregations groupsName).2 _ rfl
  rw [Request.composite.eq_def] at hgroups
  have hnames : (aggregationsEntry r.metrics).map (·.1) = [] ∨
      (aggregationsEntry r.metrics).map (·.1) = ["aggregations"] := by
    rw [aggregationsEntry]
    split <;> simp
  obtain ⟨page, hpage, hget''⟩ :=
    (Json.get?_ofValue (by rcases hnames with hn | hn <;> simp [hn]) hgroups "composite").2 _ rfl
  have hafter : Message.after? ⟨path, body⟩ = page.get? "after" := by
    rw [Message.after?, hget, Option.bind_some, hget', Option.bind_some, hget'', Option.bind_some]
  rw [hafter]
  constructor
  · rintro rfl
    exact (Json.get?_ofValue (by simp) hpage "after").1 rfl
  · rintro key rfl
    exact (Json.get?_ofValue (by simp) hpage "after").2 _ rfl

end NeutralQuery.Search
