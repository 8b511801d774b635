import NeutralQuery.Text.Case
import NeutralQuery.Time.Timestamp

namespace NeutralQuery.Time

/-- A part of a layout. -/
inductive Part where
  | text (s : String)
  | year
  | shortYear
  | month (twoDigits : Bool)
  | monthName
  | day (twoDigits : Bool)
  | spacedDay
  | hour
  | hour12
  | minute (twoDigits : Bool)
  | second (twoDigits : Bool)
  | fraction (digits : Nat)
  | anyFraction
  | weekday
  | longWeekday
  | halfDay
  | offset (zulu : Bool) (colon : Bool)
  | zoneName
deriving DecidableEq

abbrev Layout := List Part

/-- What has been read so far. -/
structure Reading where
  year : Int := 0
  month : Option Nat := none
  day : Option Nat := none
  hour : Nat := 0
  minute : Nat := 0
  second : Nat := 0
  nanos : Nat := 0
  afternoon : Bool := false
  morning : Bool := false
  isUtc : Bool := false
  offset : Option Int := none
  zoneName : String := ""

/-- One or two digits, or exactly two. -/
def takeNumber (twoDigits : Bool) : List Char → Option (Nat × List Char)
  | a :: b :: rest =>
    if !Text.isDigit a then none
    else if Text.isDigit b then some (Text.digitValue a * 10 + Text.digitValue b, rest)
    else if twoDigits then none
    else some (Text.digitValue a, b :: rest)
  | [a] => if Text.isDigit a && !twoDigits then some (Text.digitValue a, []) else none
  | [] => none

def takeDigits (count : Nat) (cs : List Char) : Option (Nat × List Char) :=
  let ds := cs.take count
  if ds.length = count && ds.all Text.isDigit then
    some (Text.natOfDigits 10 (ds.map Text.digitValue), cs.drop count)
  else none

def takeName (names : List String) (cs : List Char) : Option (Nat × List Char) :=
  let fold := fun (l : List Char) => l.map Char.toLower
  match names.findIdx? (fun n => (fold n.toList).isPrefixOf (fold cs)) with
  | some i => some (i, cs.drop (names.getD i "").length)
  | none => none

/-- Literal text, where one blank stands for any number of them. -/
def takeText : List Char → List Char → Option (List Char)
  | [], cs => some cs
  | ' ' :: ls, cs =>
    match cs with
    | [] => takeText ls []
    | c :: _ => if c = ' ' then takeText ls (cs.dropWhile (· = ' ')) else none
  | l :: ls, c :: cs => if l = c then takeText ls cs else none
  | _ :: _, [] => none

def nanosOf (ds : List Char) : Nat :=
  let kept := ds.take 9
  Text.natOfDigits 10 (kept.map Text.digitValue) * Nat.pow 10 (9 - kept.length)

def isPoint (c : Char) : Bool := c = '.' || c = ','

def takeFraction : List Char → Option (Nat × List Char)
  | c :: d :: rest =>
    if isPoint c && Text.isDigit d then
      let tail := d :: rest
      some (nanosOf (tail.takeWhile Text.isDigit), tail.dropWhile Text.isDigit)
    else none
  | _ => none

def takeOffset (colon : Bool) (cs : List Char) : Option (Int × List Char) := do
  let (sign, rest) ← match cs with
    | '+' :: r => some ((1 : Int), r)
    | '-' :: r => some (-1, r)
    | _ => none
  let (hours, rest) ← takeDigits 2 rest
  let rest ← if colon then takeText [':'] rest else some rest
  let (minutes, rest) ← takeDigits 2 rest
  if 24 < hours ∨ 60 < minutes then none
  else some (sign * ((hours * 60 + minutes) * 60 : Nat), rest)

def signedHours (cs : List Char) : Nat :=
  match cs with
  | s :: rest =>
    let ds := rest.takeWhile Text.isDigit
    if (s = '+' || s = '-') && !ds.isEmpty &&
        decide (Text.natOfDigits 10 (ds.map Text.digitValue) ≤ 23) then ds.length + 1
    else 0
  | [] => 0

def zoneNameLength (cs : List Char) : Option Nat :=
  let upper := (cs.take 6).takeWhile Text.isUpperLetter
  if cs.length < 3 then none
  else if cs.take 4 = "ChST".toList || cs.take 4 = "MeST".toList then some 4
  else if cs.take 3 = "GMT".toList then some (3 + signedHours (cs.drop 3))
  else if cs.head? = some '+' || cs.head? = some '-' then
    let n := signedHours cs
    if n = 0 then none else some n
  else
    match upper.length with
    | 5 => if upper[4]? = some 'T' then some 5 else none
    | 4 => if upper[3]? = some 'T' || upper = "WITA".toList then some 4 else none
    | 3 => some 3
    | _ => none

def takeShortYear (cs : List Char) : Option (Int × List Char) :=
  let value : Option Int :=
    match cs.take 2 with
    | ['+', d] => if Text.isDigit d then some (Text.digitValue d) else none
    | ['-', d] => if Text.isDigit d then some (-(Text.digitValue d : Int)) else none
    | [a, b] =>
      if Text.isDigit a && Text.isDigit b then
        some (Text.digitValue a * 10 + Text.digitValue b : Nat)
      else none
    | _ => none
  value.map fun n => (if 69 ≤ n then n + 1900 else n + 2000, cs.drop 2)

def startsWithFraction : Layout → Bool
  | .fraction _ :: _ => true
  | .anyFraction :: _ => true
  | _ => false

def checked (limit : Nat) (r : Option (Nat × List Char)) : Option (Nat × List Char) :=
  r.filter fun x => decide (x.1 < limit)

def Part.take (p : Part) (next : Layout) (r : Reading) (cs : List Char) :
    Option (Reading × List Char) :=
  match p with
  | .text s => (takeText s.toList cs).map fun rest => (r, rest)
  | .year => (takeDigits 4 cs).map fun (n, rest) => ({ r with year := n }, rest)
  | .shortYear => (takeShortYear cs).map fun (n, rest) => ({ r with year := n }, rest)
  | .month two =>
    ((takeNumber two cs).filter fun x => 1 ≤ x.1 && x.1 ≤ 12).map fun (n, rest) =>
      ({ r with month := some n }, rest)
  | .monthName =>
    (takeName (monthNames.map fun n => String.ofList (n.toList.take 3)) cs).map fun (i, rest) =>
      ({ r with month := some (i + 1) }, rest)
  | .day two => (takeNumber two cs).map fun (n, rest) => ({ r with day := some n }, rest)
  | .spacedDay =>
    let cs := match cs with
      | ' ' :: rest => rest
      | _ => cs
    (takeNumber false cs).map fun (n, rest) => ({ r with day := some n }, rest)
  | .hour => (checked 24 (takeNumber false cs)).map fun (n, rest) => ({ r with hour := n }, rest)
  | .hour12 => (checked 13 (takeNumber false cs)).map fun (n, rest) => ({ r with hour := n }, rest)
  | .minute two =>
    (checked 60 (takeNumber two cs)).map fun (n, rest) => ({ r with minute := n }, rest)
  | .second two =>
    (checked 60 (takeNumber two cs)).map fun (n, rest) =>
      let r := { r with second := n }
      if startsWithFraction next then (r, rest)
      else
        match takeFraction rest with
        | some (nanos, rest) => ({ r with nanos }, rest)
        | none => (r, rest)
  | .fraction count =>
    match cs with
    | c :: rest =>
      if isPoint c then
        (takeDigits count rest).map fun (_, tail) =>
          ({ r with nanos := nanosOf (rest.take count) }, tail)
      else none
    | [] => none
  | .anyFraction =>
    match takeFraction cs with
    | some (nanos, rest) => some ({ r with nanos }, rest)
    | none => some (r, cs)
  | .weekday =>
    (takeName (weekdayNames.map fun n => String.ofList (n.toList.take 3)) cs).map fun (_, rest) =>
      (r, rest)
  | .longWeekday => (takeName weekdayNames cs).map fun (_, rest) => (r, rest)
  | .halfDay =>
    match cs with
    | 'P' :: 'M' :: rest => some ({ r with afternoon := true }, rest)
    | 'A' :: 'M' :: rest => some ({ r with morning := true }, rest)
    | _ => none
  | .offset zulu colon =>
    match zulu, cs with
    | true, 'Z' :: rest => some ({ r with isUtc := true }, rest)
    | _, _ => (takeOffset colon cs).map fun (n, rest) => ({ r with offset := some n }, rest)
  | .zoneName =>
    if cs.take 3 = "UTC".toList then some ({ r with isUtc := true }, cs.drop 3)
    else
      (zoneNameLength cs).map fun n =>
        ({ r with zoneName := String.ofList (cs.take n) }, cs.drop n)

def Reading.collect : Layout → Reading → List Char → Option Reading
  | [], r, cs => if cs.isEmpty then some r else none
  | p :: next, r, cs =>
    match p.take next r cs with
    | some (r, rest) => collect next r rest
    | none => none

def gmtHours (name : String) : Int :=
  match name.toList with
  | 'G' :: 'M' :: 'T' :: '+' :: ds => Text.natOfDigits 10 (ds.map Text.digitValue)
  | 'G' :: 'M' :: 'T' :: '-' :: ds => -(Text.natOfDigits 10 (ds.map Text.digitValue) : Int)
  | _ => 0

def Reading.finish (r : Reading) : Option Timestamp :=
  let hour :=
    if r.afternoon && decide (r.hour < 12) then r.hour + 12
    else if r.morning && r.hour == 12 then 0
    else r.hour
  let date : Date := ⟨r.year, r.month.getD 1, r.day.getD 1⟩
  if date.day < 1 ∨ daysInMonth date.year date.month < date.day then none
  else
    let c : Clock := ⟨date, hour, r.minute, r.second⟩
    let instant := Timestamp.ofClock c r.nanos .utc
    if r.isUtc then some instant
    else
      match r.offset with
      | some offset =>
        let zone :=
          if offset = 0 ∧ (r.zoneName = "" ∨ r.zoneName = "UTC") then Zone.here
          else Zone.fixed r.zoneName offset
        some ⟨instant.seconds - offset, r.nanos, zone⟩
      | none =>
        if r.zoneName = "" then some instant
        else some { instant with zone := .fixed r.zoneName (gmtHours r.zoneName * 3600) }

def Layout.read? (l : Layout) (s : String) : Option Timestamp :=
  (Reading.collect l {} s.toList).bind Reading.finish

namespace Layout

def date : Layout := [.year, .text "-", .month true, .text "-", .day true]

def time : Layout := [.hour, .text ":", .minute true, .text ":", .second true]

def dateAndTime (separator : String) (tail : Layout) : Layout :=
  date ++ [.text separator] ++ time ++ tail

/-- Date and time with `T` between them and an offset. -/
def interchange : Layout := dateAndTime "T" [.offset true true]

end Layout

end NeutralQuery.Time
