import NeutralQuery.Text.Quoted
import NeutralQuery.Time.Calendar

namespace NeutralQuery.Time

/-- The zone an instant is shown in; the local zone has no offset here. -/
inductive Zone where
  | utc
  | here
  | fixed (name : String) (offset : Int)
deriving DecidableEq

def Zone.offset : Zone → Int
  | .fixed _ offset => offset
  | _ => 0

/-- An instant: whole seconds since the epoch and the nanoseconds after them. -/
structure Timestamp where
  seconds : Int
  nanos : Nat
  zone : Zone
deriving DecidableEq

structure Clock where
  date : Date
  hour : Nat
  minute : Nat
  second : Nat

namespace Timestamp

def ofUnix (seconds : Int) (nanos : Nat) : Timestamp := ⟨seconds, nanos, .here⟩

def ofMillis (ms : Int) : Timestamp :=
  ⟨ms.fdiv 1000, (ms.fmod 1000).toNat * 1000000, .here⟩

def toMillis (t : Timestamp) : Int := t.seconds * 1000 + (t.nanos / 1000000 : Nat)

/-- What calendar and clock show in the zone of the instant. -/
def clock (t : Timestamp) : Clock :=
  let shown := t.seconds + t.zone.offset
  let days := shown.fdiv 86400
  let rest := (shown - days * 86400).toNat
  ⟨.ofDays days, rest / 3600, rest % 3600 / 60, rest % 60⟩

def ofClock (c : Clock) (nanos : Nat) (zone : Zone) : Timestamp :=
  ⟨c.date.toDays * 86400 + c.hour * 3600 + c.minute * 60 + c.second - zone.offset, nanos, zone⟩

def compare (a b : Timestamp) : Ordering :=
  (Ord.compare a.seconds b.seconds).then (Ord.compare a.nanos b.nanos)

def pad2 (n : Nat) : String := Text.padLeft 2 '0' (Text.ofNat n)

def yearText (year : Int) : String :=
  (if year < 0 then "-" else "") ++ Text.padLeft 4 '0' (Text.ofNat year.natAbs)

/-- A point and the fraction of a second without trailing zeros; nothing for whole seconds. -/
def fractionText (nanos : Nat) : String :=
  if nanos = 0 then ""
  else
    let digits := (Text.padLeft 9 '0' (Text.ofNat nanos)).toList
    String.ofList ('.' :: (digits.reverse.dropWhile (· = '0')).reverse)

def offsetText (separator : String) (offset : Int) : String :=
  let minutes := offset.natAbs / 60
  (if offset < 0 then "-" else "+") ++ pad2 (minutes / 60) ++ separator ++ pad2 (minutes % 60)

def dateText (c : Clock) : String :=
  yearText c.date.year ++ "-" ++ pad2 c.date.month ++ "-" ++ pad2 c.date.day

def timeText (c : Clock) (nanos : Nat) : String :=
  pad2 c.hour ++ ":" ++ pad2 c.minute ++ ":" ++ pad2 c.second ++ fractionText nanos

def zoneName : Zone → String
  | .utc | .here => "UTC"
  | .fixed "" offset => offsetText "" offset
  | .fixed name _ => name

/-- Date, time, offset and zone name, separated by blanks. -/
def plain (t : Timestamp) : String :=
  dateText t.clock ++ " " ++ timeText t.clock t.nanos ++ " " ++ offsetText "" t.zone.offset ++
    " " ++ zoneName t.zone

def interchange (t : Timestamp) : String :=
  dateText t.clock ++ "T" ++ timeText t.clock t.nanos ++
    (if t.zone.offset = 0 then "Z" else offsetText ":" t.zone.offset)

def zoneDetail : Zone → String
  | .utc => "time.UTC"
  | .here => "time.Local"
  | .fixed name _ => "time.Location(" ++ Text.quoted name ++ ")"

def detailed (t : Timestamp) : String :=
  let c := t.clock
  "time.Date(" ++ Text.ofInt c.date.year ++ ", time." ++ monthName c.date.month ++ ", " ++
    ", ".intercalate ([c.date.day, c.hour, c.minute, c.second, t.nanos].map Text.ofNat) ++ ", " ++
    zoneDetail t.zone ++ ")"

end Timestamp

end NeutralQuery.Time
