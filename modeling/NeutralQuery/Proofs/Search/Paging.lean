import NeutralQuery.Proofs.Plan.Rendering
import NeutralQuery.Proofs.Search.Bodies

namespace NeutralQuery.Search

open Json (Writable)
open Decimal (Numeral)

/-- The groups of an answer. -/
def buckets (answer : Json) : List Json :=
  ((aggregation? answer groupsName).bind (·.get? "buckets")).elim [] Json.items

/-- The key after which the groups of an answer go on. -/
def afterKey? (answer : Json) : Option Json :=
  match (aggregation? answer groupsName).bind (·.get? "after_key") with
  | some (.record entries) => some (.record entries)
  | _ => none

/-- A message that asks for the groups after a key, or for the first ones. The members of the key
that come out as they were read are those of the key. -/
structure Asks (s : Settings) (r : Request) (after : Option Json) (m : Message) : Prop where
  path : m.path = "/" ++ s.index r.collection ++ "/_search"
  body : Json.ofValue (r.body s.maxResults (after.bind (·.floatValue.asRecord?))) = .ok m.body
  first : after = none → m.after? = none
  next : ∀ key, after = some key → ∃ sent, m.after? = some sent ∧
    Json.ofValue key.floatValue = .ok sent ∧
    ∀ name, (∀ v, key.get? name = some v → v.Settled) → sent.get? name = key.get? name

section

variable (keys : List GroupKey) (accumulators : List Accumulator)

/-- A page that another one is read after: it has groups, which all become rows, and a key. -/
structure Continues (page : Json) : Prop where
  groups : buckets page ≠ []
  key : (afterKey? page).isSome = true
  rows : ∃ rows, (buckets page).mapM (bucketRow keys accumulators) = .ok rows

/-- A page that nothing is read after: it has no groups or no key, or a group fails to become a
row. -/
def Stops (page : Json) : Prop :=
  buckets page = [] ∨ afterKey? page = none ∨
    ∃ e, (buckets page).mapM (bucketRow keys accumulators) = .error e

end

variable {r : Request} {s : Settings} {keys : List GroupKey} {accumulators : List Accumulator}

theorem pageRows_eq (keys : List GroupKey) (accumulators : List Accumulator) (answer : Json) :
    pageRows keys accumulators answer =
      if (buckets answer).isEmpty then .ok ([], none)
      else ((buckets answer).mapM (bucketRow keys accumulators)).map fun rows =>
        (rows, (afterKey? answer).bind (·.floatValue.asRecord?)) := by
  have hafter : ((aggregation? answer groupsName).bind (·.get? "after_key")).bind
      (·.floatValue.asRecord?) = (afterKey? answer).bind (·.floatValue.asRecord?) := by
    rw [afterKey?]
    split
    · next entries he => rw [he]
    · next hne =>
      cases hkey : (aggregation? answer groupsName).bind (·.get? "after_key") with
      | none => rfl
      | some key =>
        cases key with
        | record entries => exact absurd hkey (hne entries)
        | number token =>
          change (Json.floatNumber token).asRecord? = none
          rw [Json.floatNumber]
          split <;> rfl
        | _ => rfl
  rw [pageRows, groupPage, hafter]
  rfl

theorem readPage_eq (keys : List GroupKey) (accumulators : List Accumulator)
    (hb : Json.ofValue (r.body s.maxResults after) = .ok body) (ht : response.tree = .ok answer) :
    readPage r s keys accumulators after response = ⟨pageRows keys accumulators answer,
      [⟨"/" ++ s.index r.collection ++ "/" ++ "_search", body⟩]⟩ := by
  simp only [readPage, search, exchange, hb, ht]
  rfl

theorem mapM_append_of_ok {f : α → Outcome β} {xs ys : List α} (h : xs.mapM f = .ok front) :
    (xs ++ ys).mapM f = (ys.mapM f).map (front ++ ·) := by
  rw [List.mapM_append, h]
  cases ys.mapM f <;> rfl

/-- A key that was read from an answer. -/
def IsKey (key : Json) : Prop :=
  (∃ entries, key = .record entries) ∧ key.EachNumber fun t => Numeral t.toList

theorem isKey_of_none (key : Json) (h : none = some key) : IsKey key := nomatch h

theorem isKey_of_afterKey? (hn : answer.EachNumber fun t => Numeral t.toList)
    (h : afterKey? answer = some key) : IsKey key := by
  rw [afterKey?] at h
  split at h
  · next entries he =>
    cases h
    obtain ⟨groups, hgroups, hkey⟩ := Option.bind_eq_some_iff.1 he
    obtain ⟨aggregations, haggregations, hget⟩ := Option.bind_eq_some_iff.1 hgroups
    exact ⟨⟨entries, rfl⟩, ((hn.get? haggregations).get? hget).get? hkey⟩
  · cases h

theorem writable_page (hg : r.group = some (keys, accumulators)) (hk : keys ≠ [])
    (hm : metrics accumulators = .ok r.metrics) (maxResults : Int)
    (ha : ∀ key, after = some key → IsKey key) :
    Writable (r.body maxResults (after.bind (·.floatValue.asRecord?))) ↔
      Writable r.clause.body := by
  refine writable_body_iff hg hk maxResults (writable_metrics hm) fun row hrow => ?_
  obtain ⟨key, rfl, hrecord⟩ := Option.bind_eq_some_iff.1 hrow
  obtain ⟨⟨entries, rfl⟩, hn⟩ := ha key rfl
  have hwritable := Json.writable_floatValue hn
  cases hrecord
  exact hwritable

theorem asks_of_body (hg : r.group = some (keys, accumulators)) (hk : keys ≠ [])
    (ha : ∀ key, after = some key → IsKey key)
    (hb : Json.ofValue (r.body s.maxResults (after.bind (·.floatValue.asRecord?))) = .ok body) :
    Asks s r after ⟨"/" ++ s.index r.collection ++ "/" ++ "_search", body⟩ := by
  obtain ⟨hfirst, hnext⟩ := after?_of_body hg hk hb
    ("/" ++ s.index r.collection ++ "/" ++ "_search")
  refine ⟨?_, hb, ?_, ?_⟩
  · rw [String.append_assoc]
    rfl
  · rintro rfl
    exact hfirst rfl
  · rintro key rfl
    obtain ⟨⟨entries, rfl⟩, hn⟩ := ha key rfl
    obtain ⟨sent, hsent, hafter⟩ := hnext _ rfl
    exact ⟨sent, hafter, hsent, fun name hs => Json.get?_rewritten hsent hn hs⟩

theorem stops_or_continues (keys : List GroupKey) (accumulators : List Accumulator) (page : Json) :
    Stops keys accumulators page ∨ Continues keys accumulators page := by
  by_cases hb : buckets page = []
  · exact .inl (.inl hb)
  cases hk : afterKey? page with
  | none => exact .inl (.inr (.inl hk))
  | some key =>
    cases hr : (buckets page).mapM (bucketRow keys accumulators) with
    | error e => exact .inl (.inr (.inr ⟨e, hr⟩))
    | ok rows => exact .inr ⟨hb, Option.isSome_of_eq_some hk, rows, hr⟩

section

variable {m : List Message} {response : Response}

theorem groupRows_of_stops
    (hp : readPage r s keys accumulators after response = ⟨pageRows keys accumulators page, m⟩)
    (hs : Stops keys accumulators page) (rest : List Response) :
    groupRows r s keys accumulators after (response :: rest) =
      ⟨(buckets page).mapM (bucketRow keys accumulators), m⟩ := by
  simp only [groupRows, hp, pageRows_eq]
  by_cases hb : buckets page = []
  · simp only [hb]
    rfl
  rw [if_neg fun he => hb (List.isEmpty_iff.1 he)]
  cases hr : (buckets page).mapM (bucketRow keys accumulators) with
  | error e => rfl
  | ok rows =>
    rcases hs with hn | hk | ⟨e, he⟩
    · exact absurd hn hb
    · rw [hk]
      rfl
    · cases hr.symm.trans he

theorem groupRows_of_continues
    (hp : readPage r s keys accumulators after response = ⟨pageRows keys accumulators page, m⟩)
    (hb : buckets page ≠ []) (hr : (buckets page).mapM (bucketRow keys accumulators) = .ok rows)
    (hk : (afterKey? page).bind (·.floatValue.asRecord?) = some row) (rest : List Response) :
    groupRows r s keys accumulators after (response :: rest) =
      ⟨(groupRows r s keys accumulators (some row) rest).answer.map (rows ++ ·),
        m ++ (groupRows r s keys accumulators (some row) rest).sent⟩ := by
  rw [groupRows]
  simp only [hp, pageRows_eq, hr, hk, if_neg fun he => hb (List.isEmpty_iff.1 he)]
  rfl

end

theorem tree_numerals (h : Response.tree response = .ok answer) :
    answer.EachNumber fun t => Numeral t.toList := by
  rw [Response.tree] at h
  split at h
  · cases hread : Json.read response.body with
    | error e =>
      rw [hread] at h
      cases h
    | ok j =>
      rw [hread] at h
      cases h
      exact Json.read_numerals hread
  · cases h

theorem groupRows_pages (hg : r.group = some (keys, accumulators)) (hk : keys ≠ [])
    (hm : metrics accumulators = .ok r.metrics) (hq : Writable r.clause.body)
    (ha : List.Forall₂ (fun response answer => response.tree = .ok answer) responses answers)
    (hl : ∃ last, answers.getLast? = some last ∧ (buckets last = [] ∨ afterKey? last = none))
    (hafter : ∀ key, after = some key → IsKey key) :
    ∃ front last back, answers = front ++ last :: back ∧
      (∀ page ∈ front, Continues keys accumulators page) ∧ Stops keys accumulators last ∧
      (groupRows r s keys accumulators (after.bind (·.floatValue.asRecord?)) responses).answer =
        ((front ++ [last]).flatMap buckets).mapM (bucketRow keys accumulators) ∧
      List.Forall₂ (Asks s r) (after :: front.map afterKey?)
        (groupRows r s keys accumulators (after.bind (·.floatValue.asRecord?)) responses).sent := by
  induction ha generalizing after with
  | nil =>
    obtain ⟨last, hlast, _⟩ := hl
    cases hlast
  | @cons response answer responses answers ht _ ih =>
    obtain ⟨body, hbody⟩ := (writable_page hg hk hm s.maxResults hafter).2 hq
    have hpage := readPage_eq keys accumulators hbody ht
    have hasks := asks_of_body hg hk hafter hbody
    rcases stops_or_continues keys accumulators answer with hs | ⟨hb, hsome, rows, hr⟩
    · refine ⟨[], answer, answers, rfl, fun _ hp => (nomatch hp), hs, ?_, ?_⟩
      · rw [groupRows_of_stops hpage hs, List.nil_append, List.flatMap_singleton]
      · rw [groupRows_of_stops hpage hs]
        exact .cons hasks .nil
    · obtain ⟨key, hkey⟩ := Option.isSome_iff_exists.1 hsome
      have hiskey := isKey_of_afterKey? (tree_numerals ht) hkey
      have hnext : ∀ k, some key = some k → IsKey k := fun _ he => Option.some.inj he ▸ hiskey
      obtain ⟨row, hrow⟩ : ∃ row, (some key).bind (·.floatValue.asRecord?) = some row := by
        obtain ⟨⟨entries, rfl⟩, _⟩ := hiskey
        exact ⟨_, rfl⟩
      have hlast : ∃ last, answers.getLast? = some last ∧
          (buckets last = [] ∨ afterKey? last = none) := by
        obtain ⟨last, hlast, hcloses⟩ := hl
        rcases answers with _ | ⟨next, rest⟩
        · rw [List.getLast?_singleton] at hlast
          cases hlast
          rcases hcloses with hn | hn
          · exact absurd hn hb
          · exact absurd (hkey.symm.trans hn) (Option.some_ne_none key)
        · rw [List.getLast?_cons_cons] at hlast
          exact ⟨last, hlast, hcloses⟩
      obtain ⟨front, last, back, rfl, hfront, hstops, hanswer, hsent⟩ := ih hlast hnext
      rw [hrow] at hanswer hsent
      rw [groupRows_of_continues hpage hb hr (hkey ▸ hrow)]
      refine ⟨answer :: front, last, back, rfl,
        List.forall_mem_cons.2 ⟨⟨hb, hsome, rows, hr⟩, hfront⟩, hstops, ?_, ?_⟩
      · dsimp only
        rw [hanswer, List.cons_append, List.flatMap_cons, mapM_append_of_ok hr]
      · rw [List.map_cons, hkey]
        exact .cons hasks hsent

theorem groupRows_unwritable (hg : r.group = some (keys, accumulators)) (hk : keys ≠ [])
    (hm : metrics accumulators = .ok r.metrics) (hq : ¬Writable r.clause.body)
    (responses : List Response) :
    ∃ e, groupRows r s keys accumulators none responses = ⟨.error e, []⟩ := by
  have hbody := mt (writable_page hg hk hm s.maxResults isKey_of_none).1 hq
  cases hb : Json.ofValue (r.body s.maxResults none) with
  | ok body => exact absurd ⟨body, hb⟩ hbody
  | error e =>
    have hpage (response : Response) : ∃ e,
        readPage r s keys accumulators none response = ⟨.error e, []⟩ := by
      simp only [readPage, search, exchange, hb]
      exact ⟨_, rfl⟩
    cases responses with
    | nil =>
      obtain ⟨e, he⟩ := hpage exhausted
      rw [groupRows]
      simp only [he]
      exact ⟨_, rfl⟩
    | cons response rest =>
      obtain ⟨e, he⟩ := hpage response
      rw [groupRows]
      simp only [he]
      exact ⟨_, rfl⟩

theorem find_grouped {plan : Plan} (h : render plan = .ok r)
    (hg : r.group = some (keys, accumulators)) (hk : keys ≠ []) (responses : List Response) :
    find s responses plan =
      ⟨(groupRows r s keys accumulators none responses).answer.bind
          (Memory.apply .standard [] plan.fields r.post),
        (groupRows r s keys accumulators none responses).sent⟩ := by
  have hkeys : keys.isEmpty = false := List.isEmpty_eq_false_iff.2 hk
  rw [find, h]
  simp only [findRequest, hg, grouped, hkeys]
  rfl

end NeutralQuery.Search

namespace NeutralQuery.Compiler

open Search

/-- The groups of a plan are read page by page: the first message has no key, each further one has
the key of the page before, and no page is asked for behind one without groups or without a key. The
rows of all groups that were read, in their order, go through the stages that follow the group. A
plan whose joins repeat records is refused before anything is sent, and so is a query that cannot be
written. -/
theorem find_groups {catalog : Catalog} {plan : Plan}
    (h : (⟨catalog, .search⟩ : Compiler).run root spec countOnly = .ok plan)
    (hg : .group keys accumulators ∈ plan.stages) (hk : keys ≠ []) (s : Settings)
    (ha : List.Forall₂ (fun response answer => Response.tree response = .ok answer)
      responses answers)
    (hl : ∃ last, answers.getLast? = some last ∧ (buckets last = [] ∨ afterKey? last = none)) :
    (Repeats plan → ∃ l ∈ plan.lookups, find s responses plan =
      ⟨.error (.within ("to-many reference " ++ l.path ++ " needs distinct rows")
        .unsupportedStage), []⟩) ∧
    (¬Repeats plan → ∃ request before rest, render plan = .ok request ∧
      plan.stages = before ++ .group keys accumulators :: rest ∧
      (∀ stage ∈ before, ∀ keys accumulators, stage ≠ .group keys accumulators) ∧
      request.collection = plan.root.collection ∧
      request.group = some (keys, accumulators) ∧
      ((∀ query, Json.ofValue request.clause.body ≠ .ok query) →
        ∃ e, find s responses plan = ⟨.error e, []⟩) ∧
      ∀ query, Json.ofValue request.clause.body = .ok query →
        ∃ front last back, answers = front ++ last :: back ∧
          (∀ page ∈ front, Continues keys accumulators page) ∧ Stops keys accumulators last ∧
          List.Forall₂ (Asks s request) (none :: front.map afterKey?)
            (find s responses plan).sent ∧
          (find s responses plan).answer =
            (((front ++ [last]).flatMap buckets).mapM (bucketRow keys accumulators)).bind
              (Memory.apply .standard [] plan.fields rest)) := by
  obtain ⟨q, raws, resolution, g, hc⟩ := run_eq_ok h
  obtain ⟨hgrouped, rfl, rfl⟩ := hc.group_mem_iff.1 hg
  constructor
  · intro hr
    obtain ⟨l, hl, he⟩ := hc.render_repeated hr
    refine ⟨l, hl, ?_⟩
    rw [find, he]
  · intro hr
    obtain ⟨request, before, rest, hrender, hstages, hbefore, hcollection, hgroup, rfl, hm⟩ :=
      hc.render_grouped (hc.admitted rfl) hc.grouping_placed.2.accumulators hgrouped hr
    refine ⟨request, before, _, hrender, hstages, hbefore, hcollection, hgroup, ?_, ?_⟩
    · intro hq
      obtain ⟨e, he⟩ := groupRows_unwritable (s := s) hgroup hk hm (not_exists.2 hq) responses
      refine ⟨e, ?_⟩
      rw [find_grouped hrender hgroup hk, he]
      rfl
    · intro query hq
      obtain ⟨front, last, back, hanswers, hfront, hstops, hanswer, hsent⟩ :=
        groupRows_pages (s := s) hgroup hk hm ⟨query, hq⟩ ha hl isKey_of_none
      refine ⟨front, last, back, hanswers, hfront, hstops, ?_, ?_⟩
      · rw [find_grouped hrender hgroup hk]
        exact hsent
      · rw [find_grouped hrender hgroup hk, ← hanswer]
        rfl

end NeutralQuery.Compiler

namespace NeutralQuery.Sample

open Search

/-- How many people there are in each city. -/
def cityCounts : QuerySpec where
  select := [⟨"city", "city"⟩, ⟨"[Count]id", "n"⟩]
  groupBy := ["city"]

def idCount : Accumulator := ⟨"count_id", .count, "id", .int, .int⟩

def cityCountsPlan : Plan where
  root := person
  stages := [.group [⟨"city", .string⟩] [idCount], .project [("city", "city"), ("n", "count_id")]]
  fields := [("city", cityField), ("id", idField)]
  countOnly := false

theorem run_cityCounts :
    (⟨catalog, .search⟩ : Compiler).run "person" cityCounts false = .ok cityCountsPlan := by
  let q : Compile.Parsed := ⟨cityCounts, .all, .all, [⟨"city", ⟨"city", "city", none⟩⟩,
    ⟨"n", ⟨"[Count]id", "id", some ⟨.count, "id"⟩⟩⟩], []⟩
  have hq : Compile.read cityCounts = .ok q := rfl
  have hp : q.paths = .ok ["city", "id", "city"] := rfl
  have hr : Resolution.resolve catalog person ["city", "id", "city"] =
      .ok ⟨[], cityCountsPlan.fields⟩ := rfl
  have hg : q.grouping cityCountsPlan.fields = .ok (cityCountsPlan.fields,
      ⟨[⟨"city", .string⟩], [idCount], [("n", idCount)]⟩) := rfl
  exact Compiler.run_of_steps rfl hq hp hr hg rfl

def cityCountsRequest : Request where
  collection := "people"
  countOnly := false
  group := some ([⟨"city", .string⟩], [idCount])
  post := [.project [("city", "city"), ("n", "count_id")]]

theorem render_cityCounts : render cityCountsPlan = .ok cityCountsRequest := rfl

def cityPage (city : String) (count : Nat) (after : List (String × Json)) : Json :=
  .record [("aggregations", .record [(groupsName, .record (after ++ [("buckets", .list [.record [
    ("key", .record [("k0", .text city)]), ("doc_count", .ofInt count)]])]))])]

def osloPage : Json := cityPage "Oslo" 2 [("after_key", .record [("k0", .text "Oslo")])]

def romePage : Json := cityPage "Rome" 1 []

def osloResponse : Response where
  status := 200
  body := "\x7b\"aggregations\":\x7b\"groups\":\x7b\"after_key\":\x7b\"k0\":\"Oslo\"\x7d," ++
    "\"buckets\":[\x7b\"key\":\x7b\"k0\":\"Oslo\"\x7d,\"doc_count\":2\x7d]\x7d\x7d\x7d"

def romeResponse : Response where
  status := 200
  body := "\x7b\"aggregations\":\x7b\"groups\":\x7b" ++
    "\"buckets\":[\x7b\"key\":\x7b\"k0\":\"Rome\"\x7d,\"doc_count\":1\x7d]\x7d\x7d\x7d"

theorem tree_oslo : osloResponse.tree = .ok osloPage := by cbv

theorem tree_rome : romeResponse.tree = .ok romePage := by cbv

theorem rows_cities :
    ([osloPage, romePage].flatMap buckets).mapM (bucketRow [⟨"city", .string⟩] [idCount]) =
      .ok [[("city", .text "Oslo"), ("count_id", .ofInt64 2)],
        [("city", .text "Rome"), ("count_id", .ofInt64 1)]] := rfl

theorem not_stops_oslo : ¬Stops [⟨"city", .string⟩] [idCount] osloPage := by
  rintro (hn | hn | ⟨e, he⟩)
  · cases hn
  · cases hn
  · have hrow : (buckets osloPage).mapM (bucketRow [⟨"city", .string⟩] [idCount]) =
        .ok [[("city", .text "Oslo"), ("count_id", .ofInt64 2)]] := rfl
    cases hrow.symm.trans he

/-- How many teams have people in each city. -/
def teamCounts : QuerySpec where
  select := [⟨"people.city", "city"⟩, ⟨"[Count]id", "n"⟩]
  groupBy := ["people.city"]

def teamCountsPlan : Plan where
  root := team
  stages := [.lookup peopleLookup, .unwind "people" true,
    .group [⟨"people.city", .string⟩] [idCount],
    .project [("city", "people.city"), ("n", "count_id")]]
  fields := [("id", idField), ("people.city", peopleCityField)]
  countOnly := false

theorem run_teamCounts :
    (⟨staffed, .search⟩ : Compiler).run "team" teamCounts false = .ok teamCountsPlan := by
  let q : Compile.Parsed := ⟨teamCounts, .all, .all,
    [⟨"city", ⟨"people.city", "people.city", none⟩⟩,
      ⟨"n", ⟨"[Count]id", "id", some ⟨.count, "id"⟩⟩⟩], []⟩
  have hq : Compile.read teamCounts = .ok q := rfl
  have hp : q.paths = .ok ["people.city", "id", "people.city"] := rfl
  have hr : Resolution.resolve staffed team ["people.city", "id", "people.city"] =
      .ok ⟨[peopleLookup], teamCountsPlan.fields⟩ := rfl
  have hg : q.grouping teamCountsPlan.fields = .ok (teamCountsPlan.fields,
      ⟨[⟨"people.city", .string⟩], [idCount], [("n", idCount)]⟩) := rfl
  exact Compiler.run_of_steps rfl hq hp hr hg rfl

end NeutralQuery.Sample

namespace NeutralQuery.Compiler

open Search Sample

theorem find_groups_cityCounts :
    (⟨Sample.catalog, .search⟩ : Compiler).run "person" cityCounts false = .ok cityCountsPlan ∧
      osloResponse.tree = .ok osloPage ∧ romeResponse.tree = .ok romePage ∧
      afterKey? romePage = none ∧ ∃ first next,
        (find {} [osloResponse, romeResponse] cityCountsPlan).sent = [first, next] ∧
        first.path = "/people/_search" ∧ first.after? = none ∧ next.path = "/people/_search" ∧
        (∃ key, next.after? = some key ∧ key.get? "k0" = some (.text "Oslo")) ∧
        (find {} [osloResponse, romeResponse] cityCountsPlan).answer = .ok
          [[("city", .text "Oslo"), ("n", .ofInt64 2)],
            [("city", .text "Rome"), ("n", .ofInt64 1)]] := by
  have hsingle : ¬Repeats cityCountsPlan := fun ⟨⟨_, hl, _⟩, _⟩ => nomatch hl
  obtain ⟨request, before, rest, hrender, hstages, hbefore, -, -, -, hpages⟩ :=
    (find_groups run_cityCounts List.mem_cons_self (List.cons_ne_nil _ _) {}
      (.cons tree_oslo (.cons tree_rome .nil)) ⟨_, rfl, .inr rfl⟩).2 hsingle
  cases render_cityCounts.symm.trans hrender
  obtain ⟨front, last, back, hanswers, hfront, hstops, hsent, hanswer⟩ := hpages _ rfl
  obtain ⟨rfl, rfl⟩ : front = [osloPage] ∧ last = romePage := by
    rcases front with _ | ⟨one, _ | ⟨two, more⟩⟩
    · cases hanswers
      exact absurd hstops not_stops_oslo
    · cases hanswers
      exact ⟨rfl, rfl⟩
    · simp at hanswers
  obtain rfl : rest = [.project [("city", "city"), ("n", "count_id")]] := by
    rcases before with _ | ⟨stage, more⟩
    · cases hstages
      rfl
    · exact absurd (List.cons.inj hstages).1.symm (hbefore _ List.mem_cons_self _ _)
  -- The lists are taken apart by lemmas: cases would run the plan to find their form.
  obtain ⟨first, _, hfirst, hmore, hmessages⟩ := List.forall₂_cons_left_iff.1 hsent
  obtain ⟨next, _, hnext, hnone, rfl⟩ := List.forall₂_cons_left_iff.1 hmore
  rw [List.forall₂_nil_left_iff.1 hnone] at hmessages
  obtain ⟨key, hafter, -, hkey⟩ := hnext.next _ rfl
  refine ⟨run_cityCounts, tree_oslo, tree_rome, rfl, first, next, hmessages, hfirst.path,
    hfirst.first rfl, hnext.path, ⟨key, hafter, ?_⟩, ?_⟩
  · refine hkey "k0" fun v hv => ?_
    cases hv
    trivial
  · rw [hanswer]
    exact congrArg (Except.bind · _) rows_cities

theorem find_groups_repeated :
    (⟨staffed, .search⟩ : Compiler).run "team" teamCounts false = .ok teamCountsPlan ∧
      .group [⟨"people.city", .string⟩] [idCount] ∈ teamCountsPlan.stages ∧
      romeResponse.tree = .ok romePage ∧ afterKey? romePage = none ∧
      find {} [romeResponse] teamCountsPlan =
        ⟨.error (.within "to-many reference people needs distinct rows" .unsupportedStage), []⟩ :=
  ⟨run_teamCounts, by simp [teamCountsPlan], tree_rome, rfl, rfl⟩

end NeutralQuery.Compiler
