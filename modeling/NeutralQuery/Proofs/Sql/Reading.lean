import NeutralQuery.Sql.Condition

namespace NeutralQuery.Sql

/-- The truth of a formula on values that may be null. -/
inductive Truth where
  | true
  | false
  | unknown
deriving DecidableEq

namespace Truth

def ofBool : Bool → Truth
  | .true => .true
  | .false => .false

def not : Truth → Truth
  | .true => .false
  | .false => .true
  | .unknown => .unknown

def and : Truth → Truth → Truth
  | .true, t => t
  | .false, _ => .false
  | .unknown, .false => .false
  | .unknown, _ => .unknown

def or : Truth → Truth → Truth
  | .false, t => t
  | .true, _ => .true
  | .unknown, .true => .true
  | .unknown, _ => .unknown

def negatedIf (negated : Bool) (t : Truth) : Truth := if negated then t.not else t

def all (ts : List Truth) : Truth := ts.foldr and .true

def any (ts : List Truth) : Truth := ts.foldr or .false

theorem and_assoc (a b c : Truth) : (a.and b).and c = a.and (b.and c) := by
  cases a <;> cases b <;> cases c <;> rfl

theorem or_assoc (a b c : Truth) : (a.or b).or c = a.or (b.or c) := by
  cases a <;> cases b <;> cases c <;> rfl

theorem and_true (a : Truth) : a.and .true = a := by
  cases a <;> rfl

theorem or_false (a : Truth) : a.or .false = a := by
  cases a <;> rfl

end Truth

/-- How a server compares two values neither of which is null. -/
structure Server where
  compare : Comparison → Value → Value → Bool
  /-- Whether a text matches a pattern, letter case aside. -/
  like : Value → Value → Bool

namespace Server

def tested (test : Value → Value → Bool) (a b : Value) : Truth :=
  if a.isNull || b.isNull then .unknown else .ofBool (test a b)

/-- The truth of equality with one of the values. -/
def isIn (server : Server) (a : Value) (values : List Value) : Truth :=
  Truth.any (values.map (tested (server.compare .eq) a))

end Server

/-- A formula as it is read: placeholders stand for bound values. -/
inductive Formula where
  | true
  | compare (operand : Output) (c : Comparison) (placeholder : Nat)
  | isIn (operand : Output) (negated : Bool) (placeholders : List Nat)
  | isLike (operand : Output) (negated : Bool) (placeholder : Nat)
  | isNull (operand : Output) (negated : Bool)
  | and (left right : Formula)
  | or (left right : Formula)

/-- Where the truth of a formula is asked for: a server, the values of a row, and the bound
values. -/
structure Valuation where
  server : Server
  value : Output → Value
  params : List Value

namespace Valuation

def param (ν : Valuation) (placeholder : Nat) : Value := ν.params.getD (placeholder - 1) .null

end Valuation

def Formula.truth (ν : Valuation) : Formula → Truth
  | .true => .true
  | .compare o c n => Server.tested (ν.server.compare c) (ν.value o) (ν.param n)
  | .isIn o negated ns => (ν.server.isIn (ν.value o) (ns.map ν.param)).negatedIf negated
  | .isLike o negated n =>
    (Server.tested ν.server.like (ν.value o) (ν.param n)).negatedIf negated
  | .isNull o negated => (Truth.ofBool (ν.value o).isNull).negatedIf negated
  | .and l r => (l.truth ν).and (r.truth ν)
  | .or l r => (l.truth ν).or (r.truth ν)

inductive Token where
  | operand (o : Output)
  | placeholder (n : Nat)
  | compare (c : Comparison)
  | isIn (negated : Bool)
  | isLike (negated : Bool)
  | isNull (negated : Bool)
  | true
  | and
  | or
  | comma
  | opening
  | closing

def Token.text (write : Output → String) : Token → String
  | .operand o => write o
  | .placeholder n => Condition.placeholder n
  | .compare c => " " ++ c.text ++ " "
  | .isIn negated => if negated then " NOT IN " else " IN "
  | .isLike negated => if negated then " NOT ILIKE " else " ILIKE "
  | .isNull negated => if negated then " IS NOT NULL" else " IS NULL"
  | .true => "TRUE"
  | .and => " AND "
  | .or => " OR "
  | .comma => ", "
  | .opening => "("
  | .closing => ")"

/-- The formulas to the left on one level of parentheses: whole alternatives, and the conjuncts of
the alternative that is being read. -/
structure Level where
  alternatives : Option Formula := none
  conjuncts : Option Formula := none

namespace Level

def conjoin (l : Level) (f : Formula) : Formula := l.conjuncts.elim f (.and · f)

def disjoin (l : Level) (f : Formula) : Formula :=
  l.alternatives.elim (l.conjoin f) (.or · (l.conjoin f))

end Level

/-- What a reader has seen of the current operand of `AND` and `OR`. -/
inductive Position where
  | start
  | operand (o : Output)
  | compared (o : Output) (c : Comparison)
  | liked (o : Output) (negated : Bool)
  | listed (o : Output) (negated : Bool)
  /-- Inside a list, before a placeholder. -/
  | item (o : Output) (negated : Bool) (before : List Nat)
  /-- Inside a list, after a placeholder. -/
  | items (o : Output) (negated : Bool) (before : List Nat)
  | finished (f : Formula)

structure Reader where
  position : Position := .start
  level : Level := {}
  /-- The levels around the current one, innermost first. -/
  outer : List Level := []

namespace Reader

/-- `AND` ends a conjunct and `OR` ends an alternative; a parenthesis ends a level. -/
def step : Reader → Token → Option Reader
  | ⟨.start, l, ls⟩, .operand o => some ⟨.operand o, l, ls⟩
  | ⟨.start, l, ls⟩, .true => some ⟨.finished .true, l, ls⟩
  | ⟨.start, l, ls⟩, .opening => some ⟨.start, {}, l :: ls⟩
  | ⟨.operand o, l, ls⟩, .compare c => some ⟨.compared o c, l, ls⟩
  | ⟨.operand o, l, ls⟩, .isIn negated => some ⟨.listed o negated, l, ls⟩
  | ⟨.operand o, l, ls⟩, .isLike negated => some ⟨.liked o negated, l, ls⟩
  | ⟨.operand o, l, ls⟩, .isNull negated => some ⟨.finished (.isNull o negated), l, ls⟩
  | ⟨.compared o c, l, ls⟩, .placeholder n => some ⟨.finished (.compare o c n), l, ls⟩
  | ⟨.liked o negated, l, ls⟩, .placeholder n => some ⟨.finished (.isLike o negated n), l, ls⟩
  | ⟨.listed o negated, l, ls⟩, .opening => some ⟨.item o negated [], l, ls⟩
  | ⟨.item o negated ns, l, ls⟩, .placeholder n => some ⟨.items o negated (ns ++ [n]), l, ls⟩
  | ⟨.items o negated ns, l, ls⟩, .comma => some ⟨.item o negated ns, l, ls⟩
  | ⟨.items o negated ns, l, ls⟩, .closing => some ⟨.finished (.isIn o negated ns), l, ls⟩
  | ⟨.finished f, l, ls⟩, .and => some ⟨.start, { l with conjuncts := l.conjoin f }, ls⟩
  | ⟨.finished f, l, ls⟩, .or => some ⟨.start, ⟨l.disjoin f, none⟩, ls⟩
  | ⟨.finished f, l, outer :: ls⟩, .closing => some ⟨.finished (l.disjoin f), outer, ls⟩
  | _, _ => none

def run (r : Reader) (tokens : List Token) : Option Reader := tokens.foldlM step r

end Reader

def Formula.read (tokens : List Token) : Option Formula :=
  match Reader.run {} tokens with
  | some ⟨.finished f, l, []⟩ => some (l.disjoin f)
  | _ => none

namespace Condition

def listTokens (ns : List Nat) : List Token :=
  [Token.comma].intercalate (ns.map fun n => [.placeholder n])

def enclosedTokens (inner outer : Nat) (tokens : List Token) : List Token :=
  if inner < outer then .opening :: tokens ++ [.closing] else tokens

mutual

/-- The tokens of a condition after `bound` values have been bound. -/
def tokens (bound : Nat) : Condition → List Token
  | .true => [.true]
  | .compare o c _ => [.operand o, .compare c, .placeholder (bound + 1)]
  | .isIn o negated values =>
    .operand o :: .isIn negated :: .opening ::
      listTokens ((List.range values.length).map (bound + · + 1)) ++ [.closing]
  | .isLike o negated _ => [.operand o, .isLike negated, .placeholder (bound + 1)]
  | .isNull o negated => [.operand o, .isNull negated]
  | .absentIn o parent =>
    [.operand parent, .isNull Bool.true, .and, .operand o, .isNull Bool.false]
  | .and operands =>
    [Token.and].intercalate (tokensEach (Condition.and []).precedence bound operands)
  | .or operands =>
    [Token.or].intercalate (tokensEach (Condition.or []).precedence bound operands)

def tokensEach (outer bound : Nat) : List Condition → List (List Token)
  | [] => []
  | c :: cs =>
    enclosedTokens c.precedence outer (c.tokens bound) ::
      tokensEach outer (bound + c.params.length) cs

end

mutual

/-- The truth of a condition on a row whose outputs have the given values. -/
def truth (server : Server) (value : Output → Value) : Condition → Truth
  | .true => .true
  | .compare o c v => Server.tested (server.compare c) (value o) v
  | .isIn o negated values => (server.isIn (value o) values).negatedIf negated
  | .isLike o negated pattern => (Server.tested server.like (value o) pattern).negatedIf negated
  | .isNull o negated => (Truth.ofBool (value o).isNull).negatedIf negated
  | .absentIn o parent => .ofBool (!(value parent).isNull && (value o).isNull)
  | .and operands => Truth.all (truths server value operands)
  | .or operands => Truth.any (truths server value operands)

def truths (server : Server) (value : Output → Value) : List Condition → List Truth
  | [] => []
  | c :: cs => c.truth server value :: truths server value cs

end

mutual

/-- No list in the condition is empty, so that it can be written. -/
def Solid : Condition → Prop
  | .isIn _ _ values => values ≠ []
  | .and operands => operands ≠ [] ∧ SolidAll operands
  | .or operands => operands ≠ [] ∧ SolidAll operands
  | _ => True

def SolidAll : List Condition → Prop
  | [] => True
  | c :: cs => c.Solid ∧ SolidAll cs

end

end Condition

namespace Reader

variable {ν : Valuation} {ts us : List Token} {t u : Truth}

theorem run_cons (r : Reader) (token : Token) (tokens : List Token) :
    r.run (token :: tokens) = (r.step token).bind (·.run tokens) := by
  rw [run, List.foldlM_cons]
  rfl

theorem run_append (h : run r ts = some r') (us : List Token) : r.run (ts ++ us) = r'.run us := by
  rw [run, List.foldlM_append]
  rw [run] at h
  rw [h]
  rfl

end Reader

namespace Level

/-- The truth of the conjuncts to the left together with a further one. -/
def conjoined (ν : Valuation) (l : Level) (t : Truth) : Truth :=
  l.conjuncts.elim t fun f => (f.truth ν).and t

/-- The truth of a level whose last conjunct has the given truth. -/
def joined (ν : Valuation) (l : Level) (t : Truth) : Truth :=
  l.alternatives.elim (l.conjoined ν t) fun f => (f.truth ν).or (l.conjoined ν t)

theorem truth_conjoin (ν : Valuation) (l : Level) (f : Formula) :
    (l.conjoin f).truth ν = l.conjoined ν (f.truth ν) := by
  rw [conjoin, conjoined]
  cases l.conjuncts <;> rfl

theorem truth_disjoin (ν : Valuation) (l : Level) (f : Formula) :
    (l.disjoin f).truth ν = l.joined ν (f.truth ν) := by
  rw [disjoin, joined, ← truth_conjoin]
  cases l.alternatives <;> rfl

theorem conjoined_and (ν : Valuation) (l : Level) (t u : Truth) :
    (l.conjoined ν t).and u = l.conjoined ν (t.and u) := by
  rw [conjoined, conjoined]
  cases l.conjuncts with
  | none => rfl
  | some f => exact Truth.and_assoc _ t u

theorem joined_or (ν : Valuation) {l : Level} (hl : l.conjuncts = none) (t u : Truth) :
    (l.joined ν t).or u = l.joined ν (t.or u) := by
  rw [joined, joined, conjoined, conjoined, hl]
  cases l.alternatives with
  | none => rfl
  | some f => exact Truth.or_assoc _ t u

end Level

/-- The tokens are a conjunct, or several: wherever they stand, they add their truth to the
conjuncts before them. -/
def ReadsTight (ν : Valuation) (tokens : List Token) (t : Truth) : Prop :=
  ∀ l ls, ∃ l' f, Reader.run ⟨.start, l, ls⟩ tokens = some ⟨.finished f, l', ls⟩ ∧
    l'.alternatives = l.alternatives ∧ l'.conjoined ν (f.truth ν) = l.conjoined ν t

/-- The tokens are an alternative, or several: where no conjunct stands before them, they add
their truth to the alternatives. -/
def ReadsLoose (ν : Valuation) (tokens : List Token) (t : Truth) : Prop :=
  ∀ l ls, l.conjuncts = none → ∃ l' f,
    Reader.run ⟨.start, l, ls⟩ tokens = some ⟨.finished f, l', ls⟩ ∧
      l'.joined ν (f.truth ν) = l.joined ν t

section

variable {ν : Valuation} {ts us : List Token} {t u : Truth}

theorem ReadsTight.of_run {f : Formula}
    (h : ∀ l ls, Reader.run ⟨.start, l, ls⟩ ts = some ⟨.finished f, l, ls⟩) :
    ReadsTight ν ts (f.truth ν) :=
  fun l ls => ⟨l, f, h l ls, rfl, rfl⟩

theorem ReadsTight.loose (h : ReadsTight ν ts t) : ReadsLoose ν ts t := by
  intro l ls _
  obtain ⟨l', f, hr, ha, hc⟩ := h l ls
  refine ⟨l', f, hr, ?_⟩
  rw [Level.joined, Level.joined, ha, hc]

theorem ReadsLoose.enclosed (h : ReadsLoose ν ts t) :
    ReadsTight ν (.opening :: ts ++ [.closing]) t := by
  intro l ls
  obtain ⟨l', f, hr, hj⟩ := h {} (l :: ls) rfl
  refine ⟨l, l'.disjoin f, ?_, rfl, ?_⟩
  · exact Reader.run_append hr [.closing]
  · rw [Level.truth_disjoin, hj]
    rfl

theorem ReadsTight.and (ht : ReadsTight ν ts t) (hu : ReadsTight ν us u) :
    ReadsTight ν (ts ++ .and :: us) (t.and u) := by
  intro l ls
  obtain ⟨m, f, hrt, hat, hct⟩ := ht l ls
  obtain ⟨l', g, hru, hau, hcu⟩ := hu { m with conjuncts := m.conjoin f } ls
  refine ⟨l', g, ?_, hau.trans hat, ?_⟩
  · exact (Reader.run_append hrt _).trans hru
  · calc l'.conjoined ν (g.truth ν) = ((m.conjoin f).truth ν).and u := hcu
      _ = (l.conjoined ν t).and u := by rw [Level.truth_conjoin, hct]
      _ = l.conjoined ν (t.and u) := Level.conjoined_and ν l t u

theorem ReadsLoose.or (ht : ReadsLoose ν ts t) (hu : ReadsLoose ν us u) :
    ReadsLoose ν (ts ++ .or :: us) (t.or u) := by
  intro l ls hl
  obtain ⟨m, f, hrt, hjt⟩ := ht l ls hl
  obtain ⟨l', g, hru, hju⟩ := hu ⟨m.disjoin f, none⟩ ls rfl
  refine ⟨l', g, ?_, ?_⟩
  · exact (Reader.run_append hrt _).trans hru
  · calc l'.joined ν (g.truth ν) = ((m.disjoin f).truth ν).or u := hju
      _ = (l.joined ν t).or u := by rw [Level.truth_disjoin, hjt]
      _ = l.joined ν (t.or u) := Level.joined_or ν hl t u

theorem ReadsLoose.read (h : ReadsLoose ν ts t) :
    ∃ f, Formula.read ts = some f ∧ f.truth ν = t := by
  obtain ⟨l, f, hr, hj⟩ := h {} [] rfl
  refine ⟨l.disjoin f, ?_, ?_⟩
  · rw [Formula.read, hr]
  · rw [Level.truth_disjoin, hj]
    rfl

end

theorem Reader.run_listTokens (o : Output) (negated : Bool) (l : Level) (ls : List Level)
    (n : Nat) (ns before : List Nat) :
    Reader.run ⟨.item o negated before, l, ls⟩ (Condition.listTokens (n :: ns)) =
      some ⟨.items o negated (before ++ n :: ns), l, ls⟩ := by
  induction ns generalizing n before with
  | nil => rfl
  | cons m ns ih =>
    have ht : Condition.listTokens (n :: m :: ns) =
        .placeholder n :: .comma :: Condition.listTokens (m :: ns) := rfl
    rw [ht]
    simp only [Reader.run_cons, Reader.step, Option.bind_some]
    rw [ih m (before ++ [n]), List.append_assoc]
    rfl

namespace Condition

variable {ν : Valuation}

theorem reads_list (o : Output) (negated : Bool) {ns : List Nat} (hn : ns ≠ []) :
    ReadsTight ν (.operand o :: .isIn negated :: .opening :: listTokens ns ++ [.closing])
      ((Formula.isIn o negated ns).truth ν) := by
  refine ReadsTight.of_run fun l ls => ?_
  obtain ⟨n, ns, rfl⟩ := List.exists_cons_of_ne_nil hn
  exact Reader.run_append (Reader.run_listTokens o negated l ls n ns []) [.closing]

theorem param_of_isPrefix {values : List Value} {bound : Nat} (h : [v] <+: values.drop bound) :
    values.getD bound .null = v := by
  obtain ⟨rest, hr⟩ := h
  rw [← Nat.add_zero bound, List.getD_eq_getElem?_getD, ← List.getElem?_drop, ← hr]
  rfl

theorem params_of_isPrefix {values : List Value} {bound : Nat} {vs : List Value}
    (h : vs <+: values.drop bound) :
    (List.range vs.length).map (fun i => values.getD (bound + i) .null) = vs := by
  obtain ⟨rest, hr⟩ := h
  refine List.ext_getElem (by simp) fun i _ hi => ?_
  rw [List.getElem_map, List.getElem_range, List.getD_eq_getElem?_getD, ← List.getElem?_drop, ← hr,
    List.getElem?_append_left hi, List.getElem?_eq_getElem hi]
  rfl

theorem isPrefix_split {values : List Value} {bound : Nat} {vs ws : List Value}
    (h : vs ++ ws <+: values.drop bound) :
    vs <+: values.drop bound ∧ ws <+: values.drop (bound + vs.length) := by
  obtain ⟨rest, hr⟩ := h
  rw [List.append_assoc] at hr
  refine ⟨⟨ws ++ rest, hr⟩, rest, ?_⟩
  rw [← List.drop_drop, ← hr, List.drop_left]

theorem reads_enclosed {tokens : List Token} {inner : Nat} (hl : ReadsLoose ν tokens t)
    (ht : (and []).precedence ≤ inner → ReadsTight ν tokens t) :
    ReadsTight ν (enclosedTokens inner (and []).precedence tokens) t := by
  rw [enclosedTokens]
  by_cases h : inner < (and []).precedence
  · rw [if_pos h]
    exact hl.enclosed
  · rw [if_neg h]
    exact ht (Nat.le_of_not_lt h)

theorem precedence_or_le (c : Condition) : (or []).precedence ≤ c.precedence := by
  cases c <;> simp [precedence]

mutual

theorem reads_tokens : ∀ (c : Condition) (bound : Nat), c.Solid →
    c.params <+: ν.params.drop bound →
    ReadsLoose ν (c.tokens bound) (c.truth ν.server ν.value) ∧
      ((and []).precedence ≤ c.precedence →
        ReadsTight ν (c.tokens bound) (c.truth ν.server ν.value))
  | .true, _, _, _ => by
    have h : ReadsTight ν [.true] (Formula.true.truth ν) := .of_run fun _ _ => rfl
    exact ⟨h.loose, fun _ => h⟩
  | .compare o c v, bound, _, hp => by
    have h : ReadsTight ν [.operand o, .compare c, .placeholder (bound + 1)]
        ((Formula.compare o c (bound + 1)).truth ν) := .of_run fun _ _ => rfl
    have hv : ν.param (bound + 1) = v := param_of_isPrefix hp
    rw [Formula.truth, hv] at h
    exact ⟨h.loose, fun _ => h⟩
  | .isIn o negated values, bound, hs, hp => by
    have hn : (List.range values.length).map (bound + · + 1) ≠ [] := by
      simpa [Solid] using hs
    have hv : ((List.range values.length).map (bound + · + 1)).map ν.param = values := by
      rw [List.map_map]
      exact params_of_isPrefix hp
    have h : ReadsTight ν _ _ := reads_list o negated hn
    rw [Formula.truth, hv] at h
    exact ⟨h.loose, fun _ => h⟩
  | .isLike o negated pattern, bound, _, hp => by
    have h : ReadsTight ν [.operand o, .isLike negated, .placeholder (bound + 1)]
        ((Formula.isLike o negated (bound + 1)).truth ν) := .of_run fun _ _ => rfl
    have hv : ν.param (bound + 1) = pattern := param_of_isPrefix hp
    rw [Formula.truth, hv] at h
    exact ⟨h.loose, fun _ => h⟩
  | .isNull o negated, _, _, _ => by
    have h : ReadsTight ν [.operand o, .isNull negated] ((Formula.isNull o negated).truth ν) :=
      .of_run fun _ _ => rfl
    exact ⟨h.loose, fun _ => h⟩
  | .absentIn o parent, _, _, _ => by
    have hparent : ReadsTight ν [.operand parent, .isNull Bool.true]
        ((Formula.isNull parent Bool.true).truth ν) := .of_run fun _ _ => rfl
    have ho : ReadsTight ν [.operand o, .isNull Bool.false]
        ((Formula.isNull o Bool.false).truth ν) := .of_run fun _ _ => rfl
    have h := hparent.and ho
    have ht : ((Formula.isNull parent Bool.true).truth ν).and
          ((Formula.isNull o Bool.false).truth ν) =
        (absentIn o parent).truth ν.server ν.value := by
      simp only [Formula.truth, truth]
      cases (ν.value parent).isNull <;> cases (ν.value o).isNull <;> rfl
    rw [ht] at h
    exact ⟨h.loose, fun _ => h⟩
  | .and operands, bound, hs, hp => by
    rw [Solid] at hs
    rw [tokens, truth]
    have h := reads_all operands bound hs.1 hs.2 (by rwa [params] at hp)
    exact ⟨h.loose, fun _ => h⟩
  | .or operands, bound, hs, hp => by
    rw [Solid] at hs
    rw [tokens, truth]
    refine ⟨reads_some operands bound hs.1 hs.2 (by rwa [params] at hp), fun h => ?_⟩
    exact absurd h (by simp [precedence])

theorem reads_all : ∀ (cs : List Condition) (bound : Nat), cs ≠ [] → SolidAll cs →
    paramsAll cs <+: ν.params.drop bound →
    ReadsTight ν ([Token.and].intercalate (tokensEach (and []).precedence bound cs))
      (Truth.all (truths ν.server ν.value cs))
  | [], _, hn, _, _ => absurd rfl hn
  | c :: cs, bound, _, hs, hp => by
    rw [SolidAll] at hs
    rw [paramsAll] at hp
    obtain ⟨hpc, hps⟩ := isPrefix_split hp
    obtain ⟨hl, ht⟩ := reads_tokens c bound hs.1 hpc
    have hc := reads_enclosed hl ht
    rw [tokensEach, truths]
    match cs, hs, hps with
    | [], _, _ =>
      rw [tokensEach, truths, Truth.all, List.foldr_cons, List.foldr_nil, Truth.and_true]
      simpa using hc
    | d :: ds, hs, hps =>
      have hd := reads_all (d :: ds) _ (List.cons_ne_nil d ds) hs.2 hps
      rw [tokensEach] at hd ⊢
      rw [List.intercalate_cons_cons]
      simpa [Truth.all] using hc.and hd

theorem reads_some : ∀ (cs : List Condition) (bound : Nat), cs ≠ [] → SolidAll cs →
    paramsAll cs <+: ν.params.drop bound →
    ReadsLoose ν ([Token.or].intercalate (tokensEach (or []).precedence bound cs))
      (Truth.any (truths ν.server ν.value cs))
  | [], _, hn, _, _ => absurd rfl hn
  | c :: cs, bound, _, hs, hp => by
    rw [SolidAll] at hs
    rw [paramsAll] at hp
    obtain ⟨hpc, hps⟩ := isPrefix_split hp
    obtain ⟨hl, _⟩ := reads_tokens c bound hs.1 hpc
    have he : enclosedTokens c.precedence (or []).precedence (c.tokens bound) = c.tokens bound :=
      if_neg (Nat.not_lt.2 (precedence_or_le c))
    rw [tokensEach, truths, he]
    match cs, hs, hps with
    | [], _, _ =>
      rw [tokensEach, truths, Truth.any, List.foldr_cons, List.foldr_nil, Truth.or_false]
      simpa using hl
    | d :: ds, hs, hps =>
      have hd := reads_some (d :: ds) _ (List.cons_ne_nil d ds) hs.2 hps
      rw [tokensEach] at hd ⊢
      rw [List.intercalate_cons_cons]
      simpa [Truth.any] using hl.or hd

end

end Condition

namespace Condition

variable {write : Output → String}

def written (write : Output → String) (tokens : List Token) : String :=
  String.join (tokens.map (Token.text write))

theorem written_append (ts us : List Token) :
    written write (ts ++ us) = written write ts ++ written write us := by
  rw [written, List.map_append, String.join_append]
  rfl

theorem written_cons (t : Token) (ts : List Token) :
    written write (t :: ts) = t.text write ++ written write ts := by
  rw [written, List.map_cons, String.join_cons]
  rfl

theorem written_intercalate (t : Token) (parts : List (List Token)) :
    written write ([t].intercalate parts) =
      (t.text write).intercalate (parts.map (written write)) := by
  induction parts with
  | nil => rfl
  | cons ts rest ih =>
    cases rest with
    | nil => simp
    | cons us rest =>
      rw [List.intercalate_cons_cons, written_append, written_append, ih]
      simp only [List.map_cons, String.intercalate_cons_cons]
      simp [written]

theorem written_listTokens (bound count : Nat) :
    written write (listTokens ((List.range count).map (bound + · + 1))) =
      placeholders bound count := by
  rw [listTokens, written_intercalate, placeholders, List.map_map, List.map_map]
  refine congrArg _ (List.map_congr_left fun i _ => ?_)
  simp [written, Token.text]

theorem written_enclosed (inner outer : Nat) (tokens : List Token) :
    written write (enclosedTokens inner outer tokens) =
      enclosed inner outer (written write tokens) := by
  rw [enclosedTokens, enclosed]
  split
  · rw [written_append, written_cons, written_cons]
    simp [written, Token.text, String.append_assoc]
  · rfl

mutual

theorem text_eq_written : ∀ (c : Condition) (bound : Nat),
    c.text write bound = written write (c.tokens bound)
  | .true, _ => by simp [text, tokens, written, Token.text]
  | .compare o c v, _ => by simp [text, tokens, written, Token.text, String.append_assoc]
  | .isIn o negated values, bound => by
    have hin : (if negated then " NOT IN (" else " IN (") =
        (Token.isIn negated).text write ++ Token.opening.text write := by
      cases negated <;> rfl
    rw [text, tokens, written_append, written_cons, written_cons, written_cons,
      written_listTokens, hin]
    simp [written, Token.text, String.append_assoc]
  | .isLike o negated pattern, _ => by
    cases negated <;> simp [text, tokens, written, Token.text, String.append_assoc]
  | .isNull o negated, _ => by
    cases negated <;> simp [text, tokens, written, Token.text, nullText]
  | .absentIn o parent, bound => by
    have ht : tokens bound (.absentIn o parent) =
        tokens bound (.isNull parent Bool.true) ++ .and :: tokens bound (.isNull o Bool.false) :=
      rfl
    have hn (o : Output) (negated : Bool) :
        written write (tokens bound (.isNull o negated)) = nullText (write o) negated := by
      cases negated <;> simp [tokens, written, Token.text, nullText]
    rw [ht, written_append, written_cons, hn, hn, text, String.append_assoc]
    rfl
  | .and operands, bound => by
    rw [text, tokens, written_intercalate, texts_eq_written operands]
    rfl
  | .or operands, bound => by
    rw [text, tokens, written_intercalate, texts_eq_written operands]
    rfl

theorem texts_eq_written : ∀ (cs : List Condition) (outer bound : Nat),
    texts write outer bound cs = (tokensEach outer bound cs).map (written write)
  | [], _, _ => rfl
  | c :: cs, outer, bound => by
    rw [texts, tokensEach, List.map_cons, written_enclosed, text_eq_written c bound,
      texts_eq_written cs]

end

end Condition

end NeutralQuery.Sql
