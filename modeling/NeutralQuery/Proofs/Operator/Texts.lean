import NeutralQuery.Document.Match
import NeutralQuery.Operator.Registry
import NeutralQuery.Proofs.Text.Patterns
import NeutralQuery.Search.Clause
import NeutralQuery.Sql.Render

namespace NeutralQuery

open Text (Folding Place lowerChar quote regex wildcards)

/-- The operator that asks for a text at a place. -/
def Text.Place.operator : Place → Operator
  | .anywhere => .contain
  | .atStart => .startWith
  | .atEnd => .endWith

variable {p : Predicate} {v : String}

theorem Text.lower_toList (s : String) : (Text.lower s).toList = s.toList.map lowerChar :=
  String.toList_ofList

theorem Registry.standard_text (place : Place) (t v : String) :
    standard place.operator (.text t) (.text v) =
      .ok (some (decide (place.Holds (Text.lower v).toList (Text.lower t).toList))) := by
  have hsame {found : Bool} {P : Prop} [Decidable P] (h : found = true ↔ P) :
      (.ok (some found) : Outcome (Option Bool)) = .ok (some (decide P)) := by
    rw [Bool.eq_iff_iff.2 (h.trans decide_eq_true_iff.symm)]
  cases place with
  | anywhere => exact hsame Text.holds_iff
  | atStart => exact hsame List.isPrefixOf_iff_prefix
  | atEnd => exact hsame List.isSuffixOf_iff_suffix

theorem Sql.escapeLike_toList (v : String) :
    (escapeLike v).toList = quote ['\\', '%', '_'] v.toList := by
  rw [escapeLike, Text.mapChars, String.toList_ofList, quote]
  congr 1
  funext c
  simp only [List.contains_iff_mem, List.mem_cons, List.not_mem_nil, or_false]

theorem Search.quoteWildcards_toList (v : String) :
    (quoteWildcards v).toList = quote ['\\', '*', '?'] v.toList :=
  String.toList_ofList

theorem Document.quotePattern_toList (v : String) :
    (quotePattern v).toList = quote metaCharacters v.toList :=
  String.toList_ofList

theorem Sql.predicateCondition_text (place : Place) (frame : Frame) (ref : FieldRef) (out : Output)
    (ho : p.operator = place.operator) (hv : p.value = .text v) :
    ∃ pattern, predicateCondition frame ref out p = .ok (.isLike out false (.text pattern)) ∧
      pattern.toList = place.wildcardPattern '%' (quote ['\\', '%', '_'] v.toList) := by
  have hlist (before after : String) : (before ++ escapeLike v ++ after).toList =
      before.toList ++ quote ['\\', '%', '_'] v.toList ++ after.toList := by
    rw [String.toList_append, String.toList_append, escapeLike_toList]
  rw [predicateCondition, ho, hv]
  cases place with
  | anywhere => exact ⟨_, rfl, hlist "%" "%"⟩
  | atStart => exact ⟨_, rfl, hlist "" "%"⟩
  | atEnd => exact ⟨_, rfl, hlist "%" ""⟩

/-- The index has clauses of their own for beginnings. -/
theorem Search.predicateClause_text (place : Place) (field : String) (hp : place ≠ .atStart)
    (ho : p.operator = place.operator) (hv : p.value = .text v) :
    ∃ pattern, predicateClause field p = .ok (.wildcard field pattern) ∧
      pattern.toList = place.wildcardPattern '*' (quote ['\\', '*', '?'] v.toList) := by
  rw [predicateClause, ho, hv]
  cases place with
  | anywhere =>
    refine ⟨_, rfl, ?_⟩
    rw [String.toList_append, String.toList_append, Value.plain, quoteWildcards_toList]
    rfl
  | atStart => exact absurd rfl hp
  | atEnd =>
    refine ⟨_, rfl, ?_⟩
    rw [String.toList_append, Value.plain, quoteWildcards_toList]
    exact congrArg ('*' :: ·) (List.append_nil _).symm

theorem Document.predicateMatch_text (place : Place) (ref : FieldRef)
    (ho : p.operator = place.operator) (hv : p.value = .text v) :
    ∃ pattern, predicateMatch ref p = .ok (.field ref.location (.like pattern)) ∧
      pattern.toList = place.anchored (quote metaCharacters v.toList) := by
  rw [predicateMatch, ho, hv]
  cases place with
  | anywhere => exact ⟨_, rfl, (quotePattern_toList v).trans (List.append_nil _).symm⟩
  | atStart =>
    refine ⟨_, rfl, ?_⟩
    rw [String.toList_append, Value.plain, quotePattern_toList]
    exact congrArg ('^' :: ·) (List.append_nil _).symm
  | atEnd =>
    refine ⟨_, rfl, ?_⟩
    rw [String.toList_append, Value.plain, quotePattern_toList]
    rfl

theorem Document.regex_quotes : regex.Quotes metaCharacters := by
  have hmarks : metaCharacters = ['\\', '.', '+', '*', '?', '(', ')', '|', '[', ']', '\x7b', '\x7d',
      '^', '$'] := rfl
  rw [hmarks]
  exact Text.regex_quotes (by decide) (by decide)

namespace Sample

def label : Entity := ⟨"label", "labels", "id", [⟨"id", .int, ""⟩, ⟨"text", .string, ""⟩]⟩

def labelFrame : Sql.Frame := ⟨[], ⟨"", "l_0", label⟩, []⟩

def labelColumn : Sql.Output := .value (.column "l_0" "text")

def labelField : FieldRef := { raw := "text", location := "text", type := .string }

def endsInHalf : Predicate := ⟨"text", .endWith, [.text "50%_\\"]⟩

def endsInVersion : Predicate := ⟨"text", .endWith, [.text "v1.5"]⟩

end Sample

/-- The patterns for tables, and those for indexes, describe the texts that the registry affirms. -/
theorem wildcards_answer (f : Folding) (hf : f.Fixes ['\\', '%', '_', '*', '?']) (place : Place)
    (v t : String) :
    ∃ verdict, Registry.standard place.operator (.text t) (.text v) = .ok (some verdict) ∧
      (verdict = true ↔ place.Holds (Text.lower v).toList (Text.lower t).toList) ∧
      (∀ frame ref out, ∀ p : Predicate, p.operator = place.operator → p.value = .text v →
        ∃ pattern, Sql.predicateCondition frame ref out p =
            .ok (.isLike out false (.text pattern)) ∧
          f.Answers (wildcards '%' '_') pattern.toList t.toList verdict) ∧
      (place ≠ .atStart → ∀ field, ∀ p : Predicate, p.operator = place.operator →
        p.value = .text v →
        ∃ pattern, Search.predicateClause field p = .ok (.wildcard field pattern) ∧
          f.Answers (wildcards '*' '?') pattern.toList t.toList verdict) := by
  refine ⟨_, Registry.standard_text place t v, decide_eq_true_iff, ?_, ?_⟩
  · intro frame ref out p ho hv
    obtain ⟨pattern, hcondition, hpattern⟩ := Sql.predicateCondition_text place frame ref out ho hv
    refine ⟨pattern, hcondition, ?_⟩
    simp only [hpattern, Text.lower_toList]
    exact (hf.mono (by decide)).answers rfl (by decide) place v.toList t.toList
  · intro hp field p ho hv
    obtain ⟨pattern, hclause, hpattern⟩ := Search.predicateClause_text place field hp ho hv
    refine ⟨pattern, hclause, ?_⟩
    simp only [hpattern, Text.lower_toList]
    exact (hf.mono (by decide)).answers rfl (by decide) place v.toList t.toList

open Sample in
theorem wildcards_answer_half :
    Folding.lowering.Fixes ['\\', '%', '_', '*', '?'] ∧
      (∃ pattern, Sql.predicateCondition labelFrame labelField labelColumn endsInHalf =
          .ok (.isLike labelColumn false (.text pattern)) ∧
        Folding.lowering.Answers (wildcards '%' '_') pattern.toList "UP TO 50%_\\".toList true) ∧
      ∃ pattern, Search.predicateClause "text" endsInHalf = .ok (.wildcard "text" pattern) ∧
        Folding.lowering.Answers (wildcards '*' '?') pattern.toList "UP TO 50%_\\".toList true := by
  have hfixes : Folding.lowering.Fixes ['\\', '%', '_', '*', '?'] := Folding.lowering_fixes rfl
  have hverdict : Registry.standard .endWith (.text "UP TO 50%_\\") (.text "50%_\\") =
      .ok (some true) := rfl
  obtain ⟨verdict, hstandard, -, htable, hindex⟩ :=
    wildcards_answer .lowering hfixes .atEnd "50%_\\" "UP TO 50%_\\"
  cases hstandard.symm.trans hverdict
  exact ⟨hfixes, htable labelFrame labelField labelColumn endsInHalf rfl rfl,
    hindex nofun "text" endsInHalf rfl rfl⟩

theorem Text.Folding.holds_lower_iff (f : Folding) (place : Place) (v t : String) :
    place.Holds (v.toList.map f.fold) (t.toList.map f.fold) ↔
      place.Holds (Text.lower v).toList (Text.lower t).toList := by
  rw [place.holds_fold_iff, Text.lower_toList, Text.lower_toList]

theorem Text.Folding.exists_front_iff (f : Folding) (v t : String) :
    (∃ front, t.toList = front ++ ['\n'] ∧ v.toList.map f.fold <:+ front.map f.fold) ↔
      ∃ front, t = front ++ "\n" ∧ (Text.lower v).toList <:+ (Text.lower front).toList := by
  constructor
  · rintro ⟨front, hsplit, hends⟩
    refine ⟨String.ofList front, String.toList_injective ?_, ?_⟩
    · rw [hsplit, String.toList_append, String.toList_ofList]
      rfl
    · refine (f.holds_lower_iff .atEnd v (String.ofList front)).1 ?_
      rwa [String.toList_ofList]
  · rintro ⟨front, rfl, hends⟩
    exact ⟨front.toList, String.toList_append, (f.holds_lower_iff .atEnd v front).2 hends⟩

/-- The pattern for a document is found in the texts that the registry affirms, and the one for the
end of a text also where a line break follows the end. -/
theorem regex_answers (f : Folding) (place : Place) (v t : String) (ref : FieldRef)
    (ho : p.operator = place.operator) (hv : p.value = .text v) :
    ∃ query pattern verdict found,
      Document.predicateMatch ref p = .ok query ∧
      query.document = .document [(ref.location,
        .document [("$regex", .text pattern), ("$options", .text "i")])] ∧
      Registry.standard place.operator (.text t) (.text v) = .ok (some verdict) ∧
      (verdict = true ↔ place.Holds (Text.lower v).toList (Text.lower t).toList) ∧
      regex.finds f.fold pattern.toList t.toList = some found ∧
      (found = true ↔ verdict = true ∨ place = .atEnd ∧
        ∃ front, t = front ++ "\n" ∧ (Text.lower v).toList <:+ (Text.lower front).toList) := by
  obtain ⟨pattern, hquery, hpattern⟩ := Document.predicateMatch_text place ref ho hv
  obtain ⟨found, hfinds, hfound⟩ :=
    Text.finds_anchored f.fold Document.regex_quotes place v.toList t.toList
  refine ⟨_, pattern, _, found, hquery, ?_, Registry.standard_text place t v, decide_eq_true_iff,
    hpattern ▸ hfinds, ?_⟩
  · rw [Document.Match.document, Document.Test.document]
    rfl
  · rw [hfound, decide_eq_true_iff, f.holds_lower_iff, f.exists_front_iff]

open Sample in
theorem regex_answers_version :
    endsInVersion.operator = Place.atEnd.operator ∧ endsInVersion.value = .text "v1.5" ∧
      ∃ query pattern, Document.predicateMatch labelField endsInVersion = .ok query ∧
        query.document = .document [("text",
          .document [("$regex", .text pattern), ("$options", .text "i")])] ∧
        regex.finds lowerChar pattern.toList "NOTES FOR V1.5".toList = some true := by
  have hverdict : Registry.standard .endWith (.text "NOTES FOR V1.5") (.text "v1.5") =
      .ok (some true) := rfl
  obtain ⟨query, pattern, _, found, hquery, hdocument, hstandard, -, hfinds, hfound⟩ :=
    regex_answers .lowering .atEnd "v1.5" "NOTES FOR V1.5" labelField (p := endsInVersion) rfl rfl
  cases hstandard.symm.trans hverdict
  cases hfound.2 (.inl rfl)
  exact ⟨rfl, rfl, query, pattern, hquery, hdocument, hfinds⟩

open Sample in
/-- A text that ends in a line break does not end with the operand before it. -/
theorem regex_before_break :
    Document.predicateMatch labelField endsInVersion = .ok (.field "text" (.like "v1\\.5$")) ∧
      regex.finds lowerChar "v1\\.5$".toList "V1.5\n".toList = some true ∧
      Registry.standard .endWith (.text "V1.5\n") (.text "v1.5") = .ok (some false) ∧
      ¬(Text.lower "v1.5").toList <:+ (Text.lower "V1.5\n").toList := by
  have hends : ¬Place.atEnd.Holds (Text.lower "v1.5").toList (Text.lower "V1.5\n").toList := by
    rw [Text.lower_toList, Text.lower_toList]
    decide +kernel
  have hstandard := Registry.standard_text .atEnd "V1.5\n" "v1.5"
  rw [decide_eq_false hends] at hstandard
  exact ⟨rfl, by decide +kernel, hstandard, hends⟩

end NeutralQuery
