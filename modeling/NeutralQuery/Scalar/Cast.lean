import NeutralQuery.Error
import NeutralQuery.Text.Blank
import NeutralQuery.Time.Layout

namespace NeutralQuery.Cast

/-- The largest and the smallest number of 64 bits bound what a fractional number can become. -/
def wholeOfBinary (b : Decimal.Binary) : Int :=
  match b.truncate? with
  | some (n, _) => if -Nat.pow 2 63 ≤ n ∧ n < Nat.pow 2 63 then n else -Nat.pow 2 63
  | none => -Nat.pow 2 63

def trimZeroDecimal (s : String) : String :=
  let tail := s.toList.reverse
  let zeros := tail.takeWhile (· = '0')
  match zeros.isEmpty, tail.dropWhile (· = '0') with
  | false, '.' :: rest => String.ofList rest.reverse
  | _, _ => s

def intOfText (s : String) : Except CastError Int :=
  match Decimal.readInt64 (trimZeroDecimal s) with
  | .ok n => .ok n
  | .error _ => .error (.uncastable (.text s) "int64")

def toInt : Value → Except CastError Int
  | .null => .ok 0
  | .bool b => .ok (if b then 1 else 0)
  | .int k n => .ok (if k.isSigned then n else wrap64 n)
  | .float x => .ok (wholeOfBinary (Decimal.binaryOfDouble x))
  | .float32 x => .ok (wholeOfBinary (Decimal.binaryOfSingle x))
  | .text s => intOfText s
  | .numeral s => intOfText s
  | v => .error (.uncastable v "int64")

def toFloat : Value → Except CastError Float
  | .null => .ok 0
  | .bool b => .ok (if b then 1 else 0)
  | .int _ n => .ok (Decimal.doubleOfInt n)
  | .float x => .ok x
  | .float32 x => .ok x.toFloat
  | .text s =>
    match Decimal.readFloat s with
    | .ok x => .ok x
    | .error _ => .error (.uncastable (.text s) "float64")
  | .numeral s =>
    match Decimal.readFloat s with
    | .ok x => .ok x
    | .error _ => .error (.uncastable (.numeral s) "float64")
  | v => .error (.uncastable v "float64")

def trueWords : List String := ["1", "t", "T", "TRUE", "true", "True"]

def falseWords : List String := ["0", "f", "F", "FALSE", "false", "False"]

def boolOfText (s : String) : Except CastError Bool :=
  let word := Text.lower (Text.trim s)
  if ["yes", "y", "on"].contains word then .ok true
  else if ["no", "n", "off"].contains word then .ok false
  else if trueWords.contains s then .ok true
  else if falseWords.contains s then .ok false
  else .error (.notBoolean s)

/-- The boolean that a literal stands for: numbers other than zero and the usual words. -/
def toBool : Value → Except CastError Bool
  | .null => .ok false
  | .bool b => .ok b
  | .int _ n => .ok (n != 0)
  | .float x => .ok (x != 0)
  | .float32 x => .ok (x != 0)
  | .duration d => .ok (d.nanos != 0)
  | .text s => boolOfText s
  | .rawText b => .error (.notBoolean (Text.ofBytes b))
  | .numeral s =>
    match intOfText s with
    | .ok n => .ok (n != 0)
    | .error _ => .error (.uncastable (.numeral s) "bool")
  | v => .error (.uncastable v "bool")

def toText : Value → Except CastError Value
  | .null => .ok (.text "")
  | .bool b => .ok (.text (Value.bool b).plain)
  | .int k n => .ok (.text (Value.int k n).plain)
  | .float x => .ok (.text (Decimal.Layout.plain.double x))
  | .float32 x => .ok (.text (Decimal.Layout.plain.single x))
  | .text s => .ok (.text s)
  | .rawText b => .ok (.rawText b)
  | .bytes b => .ok (Value.ofBytesAsText b)
  | .numeral s => .ok (.text s)
  | .time t => .ok (.text t.plain)
  | .duration d => .ok (.text d.plain)
  | .uuid u => .ok (.text u.text)
  | .ulid u => .ok (.text u.text)
  | .objectId b => .ok (.text (Value.objectId b).plain)
  | .document entries => .ok (.text (Value.document entries).plain)
  | v => .error (.uncastable v "string")

open Time (Part Layout)

/-- A layout for dates, and whether it carries a numeric offset. -/
structure DateLayout where
  parts : Layout
  hasOffset : Bool

def shortDate : Layout := [.day true, .text " ", .monthName, .text " "]

def stamp : Layout := ([.monthName, .text " ", .spacedDay, .text " "] : Layout) ++ Layout.time

def weekdayDate : Layout :=
  ([.weekday, .text ", "] : Layout) ++ shortDate ++ ([.year, .text " "] : Layout) ++ Layout.time

def shortYearTime : Layout :=
  shortDate ++ ([.shortYear, .text " ", .hour, .text ":", .minute true, .text " "] : Layout)

def dateLayouts : List DateLayout := [
  ⟨Layout.date, false⟩,
  ⟨Layout.interchange, true⟩,
  ⟨Layout.dateAndTime "T" [], false⟩,
  ⟨weekdayDate ++ ([.text " ", .offset false false] : Layout), true⟩,
  ⟨weekdayDate ++ ([.text " ", .zoneName] : Layout), false⟩,
  ⟨shortYearTime ++ ([.offset false false] : Layout), true⟩,
  ⟨shortYearTime ++ ([.zoneName] : Layout), false⟩,
  ⟨([.longWeekday, .text ", ", .day true, .text "-", .monthName, .text "-", .shortYear,
    .text " "] : Layout) ++ Layout.time ++ ([.text " ", .zoneName] : Layout), false⟩,
  ⟨Layout.dateAndTime " "
    [.anyFraction, .text " ", .offset false false, .text " ", .zoneName], true⟩,
  ⟨Layout.dateAndTime "T" [.offset false false], true⟩,
  ⟨Layout.dateAndTime " " [.offset true false], true⟩,
  ⟨Layout.dateAndTime " " [], false⟩,
  ⟨([.weekday, .text " "] : Layout) ++ stamp ++ ([.text " ", .year] : Layout), false⟩,
  ⟨([.weekday, .text " "] : Layout) ++ stamp ++
    ([.text " ", .zoneName, .text " ", .year] : Layout), false⟩,
  ⟨([.weekday, .text " ", .monthName, .text " ", .day true, .text " "] : Layout) ++ Layout.time ++
    ([.text " ", .offset false false, .text " ", .year] : Layout), true⟩,
  ⟨Layout.dateAndTime " " [.offset true true], true⟩,
  ⟨shortDate ++ ([.year] : Layout), false⟩,
  ⟨Layout.dateAndTime " " [.text " ", .offset false true], true⟩,
  ⟨Layout.dateAndTime " " [.text " ", .offset false false], true⟩,
  ⟨[.hour12, .text ":", .minute true, .halfDay], false⟩,
  ⟨stamp, false⟩,
  ⟨stamp ++ ([.fraction 3] : Layout), false⟩,
  ⟨stamp ++ ([.fraction 6] : Layout), false⟩,
  ⟨stamp ++ ([.fraction 9] : Layout), false⟩]

/-- Without a numeric offset the clock reading is taken for that of the prime meridian. -/
def DateLayout.read? (l : DateLayout) (s : String) : Option Time.Timestamp :=
  (l.parts.read? s).map fun t =>
    if l.hasOffset then t else Time.Timestamp.ofClock t.clock t.nanos .utc

def timeOfText (s : String) : Except CastError Time.Timestamp :=
  match dateLayouts.findSome? (·.read? s) with
  | some t => .ok t
  | none => .error (.unknownDate s)

def toTime : Value → Except CastError Time.Timestamp
  | .time t => .ok t
  | .date ms => .ok (.ofMillis ms)
  | .text s => timeOfText s
  | .rawText b => .error (.unknownDate (Text.ofBytes b))
  | .numeral s =>
    match intOfText s with
    | .ok n => .ok (.ofUnix n 0)
    | .error _ => .error (.uncastable (.numeral s) "Time")
  | .int k n =>
    match k with
    | .int | .int64 | .int32 | .uint | .uint64 | .uint32 => .ok (.ofUnix (wrap64 n) 0)
    | _ => .error (.uncastable (.int k n) "Time")
  | v => .error (.uncastable v "Time")

end NeutralQuery.Cast
