import NeutralQuery.Row
import NeutralQuery.Time.Layout

namespace NeutralQuery.Yaml

inductive Node where
  /-- A scalar with its tag, empty if none is written, and whether it is written without quotes. -/
  | scalar (tag : String) (isPlain : Bool) (text : String)
  | sequence (items : List Node)
  | mapping (entries : List (Node × Node))

instance : Inhabited Node := ⟨.scalar "" true ""⟩

def nothing : Node := .scalar "" true ""

def trueWords : List String := ["true", "True", "TRUE"]

def falseWords : List String := ["false", "False", "FALSE"]

def nullWords : List String := ["", "~", "null", "Null", "NULL"]

def nan : Float := 0 / 0

def infinity : Float := 1 / 0

def namedFloats : List (String × Float) :=
  [(".nan", nan), (".NaN", nan), (".NAN", nan), (".inf", infinity), (".Inf", infinity),
    (".INF", infinity), ("+.inf", infinity), ("+.Inf", infinity), ("+.INF", infinity),
    ("-.inf", -infinity), ("-.Inf", -infinity), ("-.INF", -infinity)]

/-- Dates have a year of four digits; months, days and times may be short. -/
def instantLayouts : List Time.Layout :=
  let date : Time.Layout := [.year, .text "-", .month false, .text "-", .day false]
  let time : Time.Layout :=
    [.hour, .text ":", .minute false, .text ":", .second false, .anyFraction]
  let offset : Time.Layout := [.offset true true]
  [date ++ ([.text "T"] : Time.Layout) ++ time ++ offset,
    date ++ ([.text "t"] : Time.Layout) ++ time ++ offset,
    date ++ ([.text " "] : Time.Layout) ++ time, date]

def instant? (s : String) : Option Time.Timestamp :=
  let digits := s.toList.takeWhile Text.isDigit
  if digits.length = 4 && (s.toList.drop 4).head? = some '-' then
    instantLayouts.findSome? fun l => l.read? s
  else none

def isDecimal (s : String) : Bool :=
  let body := match s.toList with
    | '+' :: rest => rest
    | '-' :: rest => rest
    | cs => cs
  let whole := body.takeWhile Text.isDigit
  let rest := body.dropWhile Text.isDigit
  let (hasDigits, rest) := match rest with
    | '.' :: more =>
      (!whole.isEmpty || (more.head?.map Text.isDigit).getD false, more.dropWhile Text.isDigit)
    | rest => (!whole.isEmpty, rest)
  hasDigits && match rest with
    | [] => true
    | e :: more =>
      let digits := match more with
        | '+' :: ds => ds
        | '-' :: ds => ds
        | ds => ds
      (e = 'e' || e = 'E') && !digits.isEmpty && digits.all Text.isDigit

/-- A whole number, with a mark for its base and underscores between digits. -/
def whole? (plain : String) : Option Value :=
  match (Decimal.readInt64 plain).toOption with
  | some n => some (.ofInt n)
  | none =>
    if Text.startsWith plain "-" || Text.startsWith plain "+" then none
    else ((Decimal.readInt (Nat.pow 2 64 - 1) plain).toOption).map (.int .uint64)

def number? (s : String) : Option Value :=
  let plain := String.ofList (s.toList.filter (· ≠ '_'))
  match whole? plain with
  | some v => some v
  | none =>
    if isDecimal plain then (Decimal.readFloat plain).toOption.map .float else none

def startsNumber (c : Char) : Bool := Text.isDigit c || c = '+' || c = '-'

def plainValue (s : String) : Value :=
  if nullWords.contains s then .null
  else if trueWords.contains s then .bool true
  else if falseWords.contains s then .bool false
  else
    match (namedFloats.find? fun f => f.1 == s).map (·.2), s.toList with
    | some x, _ => .float x
    | none, '.' :: _ =>
      match Decimal.readFloat s with
      | .ok x => .float x
      | .error _ => .text s
    | none, c :: _ =>
      if !startsNumber c then .text s
      else
        match instant? s, number? s with
        | some t, _ => .time t
        | none, some v => v
        | none, none => .text s
    | none, [] => .null

def textTags : List String := ["!!str", "!", "!!binary"]

/-- The value of a scalar; a tag that it does not fit is an error. -/
def scalarValue? (tag : String) (isPlain : Bool) (s : String) : Option Value :=
  if textTags.contains tag then some (.text s)
  else if tag = "" then some (if isPlain then plainValue s else .text s)
  else
    match tag, plainValue s with
    | "!!int", .int k n => some (.int k n)
    | "!!float", .float x => some (.float x)
    | "!!float", .int _ n => some (.float (Decimal.doubleOfInt n))
    | "!!bool", .bool b => some (.bool b)
    | "!!null", .null => some .null
    | "!!timestamp", .time t => some (.time t)
    | tag, _ => if Text.startsWith tag "!!" then none else some (.text s)

def Node.isNull : Node → Bool
  | .scalar tag isPlain s =>
    match scalarValue? tag isPlain s with
    | some .null => true
    | _ => false
  | _ => false

/-- The text of a scalar, however it was written. -/
def Node.text? : Node → Option String
  | .scalar _ _ s => some s
  | _ => none

def Node.isMerge : Node → Bool
  | .scalar "" true "<<" => true
  | _ => false

def sameKey (a b : Node) : Bool :=
  match a.text?, b.text? with
  | some s, some t => s == t
  | _, _ => false

def hasRepeatedKey : List (Node × Node) → Bool
  | [] => false
  | e :: rest => rest.any (fun f => sameKey e.1 f.1) || hasRepeatedKey rest

def mergedMappings? : Node → Option (List (Node × Node))
  | .mapping entries => some entries
  | .sequence items =>
    (items.mapM fun (item : Node) =>
      match item with
      | .mapping entries => some entries
      | _ => none).map List.flatten
  | _ => none

/-- Adds entries whose keys are not there yet. -/
def addMissing (entries : List (Node × Node)) : List (Node × Node) → List (Node × Node)
  | [] => entries
  | e :: rest =>
    if entries.any fun f => sameKey e.1 f.1 then addMissing entries rest
    else addMissing (entries ++ [e]) rest

def mapping? (entries : List (Node × Node)) : Option Node :=
  if hasRepeatedKey entries then none
  else
    let own := entries.filter fun e => !e.1.isMerge
    ((entries.filter (·.1.isMerge)).mapM fun e => mergedMappings? e.2).map fun merged =>
      .mapping (addMissing own merged.flatten)

mutual

/-- The value of a tree. -/
def Node.value? : Node → Option Value
  | .scalar tag isPlain s => scalarValue? tag isPlain s
  | .sequence items => (itemValues? items).map .list
  | .mapping entries => (entryValues? entries).map .record

def itemValues? : List Node → Option (List Value)
  | [] => some []
  | n :: ns =>
    match n.value? with
    | none => none
    | some v => (itemValues? ns).map (v :: ·)

def entryValues? : List (Node × Node) → Option (List (String × Value))
  | [] => some []
  | (key, n) :: rest =>
    match key.text?, n.value? with
    | some k, some v => (entryValues? rest).map ((k, v) :: ·)
    | _, _ => none

end

end NeutralQuery.Yaml
