import NeutralQuery.Error
import NeutralQuery.Text.Blank

namespace NeutralQuery.Connection

/-- Why an address is refused. -/
inductive AddressError where
  | invalidPair
  | invalidBackslash
  | unterminatedQuote
  | notService (s : String) (e : Decimal.NumeralError)
  | serviceOutsideRange
  | notTimeout (s : String) (e : Decimal.NumeralError)
  | negativeTimeout
  | securityMode
  | urlService (service : String)

def AddressError.message : AddressError → String
  | .invalidPair => "failed to parse as keyword/value (invalid keyword/value)"
  | .invalidBackslash => "failed to parse as keyword/value (invalid backslash)"
  | .unterminatedQuote =>
    "failed to parse as keyword/value (unterminated quoted string in connection info string)"
  | .notService s e =>
    "invalid port (strconv.ParseUint: parsing " ++ Text.quoted s ++ ": " ++ e.message ++ ")"
  | .serviceOutsideRange => "invalid port (outside range)"
  | .notTimeout s e =>
    "invalid connect_timeout (strconv.ParseInt: parsing " ++ Text.quoted s ++ ": " ++ e.message ++
      ")"
  | .negativeTimeout => "invalid connect_timeout (negative timeout)"
  | .securityMode => "failed to configure TLS (sslmode is invalid)"
  | .urlService service =>
    "failed to parse as URL (invalid port " ++ Text.quoted service ++ " after host)"

def isGap (c : Char) : Bool := decide (9 ≤ c.toNat) && decide (c.toNat ≤ 13) || c = ' '

/-- A backslash keeps the character after it. -/
def unescape : List Char → List Char
  | '\\' :: '\\' :: rest => '\\' :: unescape rest
  | '\\' :: '\'' :: rest => '\'' :: unescape rest
  | c :: rest => c :: unescape rest
  | [] => []

def bareValue : List Char → Except AddressError (List Char × List Char)
  | [] => .ok ([], [])
  | ['\\'] => .error .invalidBackslash
  | '\\' :: c :: rest => (bareValue rest).map fun (v, rest) => ('\\' :: c :: v, rest)
  | c :: rest =>
    if isGap c then .ok ([], rest) else (bareValue rest).map fun (v, rest) => (c :: v, rest)

def quotedValue : List Char → Except AddressError (List Char × List Char)
  | [] => .error .unterminatedQuote
  | ['\\'] => .error .unterminatedQuote
  | '\\' :: c :: rest => (quotedValue rest).map fun (v, rest) => ('\\' :: c :: v, rest)
  | c :: rest =>
    if c = '\'' then .ok ([], rest) else (quotedValue rest).map fun (v, rest) => (c :: v, rest)

/-- Pairs of a keyword and a value; `fuel` bounds their number. -/
def pairs : Nat → List Char → Except AddressError (List (String × String))
  | 0, _ => .ok []
  | fuel + 1, cs =>
    if cs.isEmpty then .ok []
    else
      match Text.cutAt '=' cs with
      | none => .error .invalidPair
      | some (key, rest) =>
        let key := String.ofList (Text.trimBoth isGap key)
        let value :=
          match rest.dropWhile isGap with
          | '\'' :: rest => quotedValue rest
          | rest => bareValue rest
        match value with
        | .error e => .error e
        | .ok (v, rest) =>
          if key = "" then .error .invalidPair
          else (pairs fuel rest).map fun more => (key, String.ofList (unescape v)) :: more

/-- The value of a keyword; the last one counts. -/
def valueOf? (settings : List (String × String)) (key : String) : Option String :=
  (settings.reverse.find? fun s => s.1 == key).map (·.2)

def checkService (s : String) : Except AddressError Unit :=
  match Decimal.digitsIn? 10 s.toList with
  | none => .error (.notService s .invalid)
  | some ds =>
    let n := Text.natOfDigits 10 ds
    if 65535 < n then .error (.notService s .outOfRange)
    else if n = 0 then .error .serviceOutsideRange
    else .ok ()

def checkTimeout (s : String) : Except AddressError Unit :=
  match Decimal.readDecimalInt64 s with
  | .error e => .error (.notTimeout s e)
  | .ok n => if n < 0 then .error .negativeTimeout else .ok ()

def securityModes : List String :=
  ["disable", "allow", "prefer", "require", "verify-ca", "verify-full"]

def checkSettings (settings : List (String × String)) : Except AddressError Unit := do
  match valueOf? settings "connect_timeout" with
  | some s => checkTimeout s
  | none => pure ()
  let hosts := (Text.split ',' ((valueOf? settings "host").getD "")).length
  let services := Text.split ',' ((valueOf? settings "port").getD "5432")
  let first := services.headD ""
  ((services ++ List.replicate (hosts - services.length) first).take hosts).forM checkService
  match valueOf? settings "sslmode" with
  | some mode => if securityModes.contains mode then pure () else throw .securityMode
  | none => pure ()

def checkUrl (rest : String) : Except AddressError Unit :=
  let authority := rest.toList.takeWhile fun c => c != '/' && c != '?' && c != '#'
  let host := (Text.splitChars '@' authority).getLastD []
  match Text.splitChars ':' host with
  | [_, service] =>
    if service.all Text.isDigit then
      if service.isEmpty then .ok () else checkService (String.ofList service)
    else .error (.urlService (String.ofList (':' :: service)))
  | _ => .ok ()

def hidePassword : List Char → List Char
  | [] => []
  | c :: cs =>
    let mark := "password=".toList
    if mark.isPrefixOf (c :: cs) then
      mark ++ "xxxxx".toList ++ ((c :: cs).drop mark.length).dropWhile (· != ' ')
    else c :: hidePassword cs

def hideUserPassword (mask : String) (cs : List Char) : List Char :=
  match Text.cutAt '@' cs with
  | none => cs
  | some (user, host) =>
    let name := (user.reverse.dropWhile (· != ':')).reverse
    if name.isEmpty || name.getLast? = user.getLast? then cs
    else name ++ mask.toList ++ '@' :: host

def afterScheme? (address : String) : Option String :=
  (Text.dropStart? address "postgres://").or (Text.dropStart? address "postgresql://")

def checkAddress (address : String) : Except AddressError Unit :=
  match afterScheme? address with
  | some rest => checkUrl rest
  | none => do checkSettings (← pairs address.length address.toList)

def shownAddress (address : String) (e : AddressError) : String :=
  let mask :=
    match e with
    | .urlService _ => "xxxxxx"
    | _ => "xxxxx"
  match afterScheme? address with
  | some rest =>
    let scheme := address.toList.take (address.length - rest.length)
    String.ofList (scheme ++ hideUserPassword mask rest.toList)
  | none => String.ofList (hidePassword address.toList)

/-- A relational database is reached through pairs of keywords and values, or a URL. -/
def relational (address : String) : Outcome Unit :=
  (checkAddress address).mapError fun e =>
    .note ("cannot parse `" ++ shownAddress address e ++ "`: " ++ e.message)

def hostFault? (host : String) : Option String :=
  match Text.split ':' host with
  | [_, service] =>
    match Decimal.readDecimalInt64 service with
    | .error e =>
      if service = "" then none
      else some ("port must be an integer: strconv.Atoi: parsing " ++ Text.quoted service ++ ": " ++
        e.message)
    | .ok n =>
      if n ≤ 0 ∨ 65536 ≤ n then some "port must be in the range [1, 65535]" else none
  | _ => none

def documentFault? (address : String) : Option String :=
  match (Text.dropStart? address "mongodb+srv://").or (Text.dropStart? address "mongodb://") with
  | none => some "scheme must be \"mongodb\" or \"mongodb+srv\""
  | some rest =>
    let rest := ((Text.cutAt '@' rest.toList).map (·.2)).getD rest.toList
    let hosts := Text.split ',' (String.ofList (rest.takeWhile fun c => c != '/' && c != '?'))
    match hosts.findSome? fun h => (hostFault? h).map fun fault => (h, fault) with
    | some (host, fault) => some ("invalid host " ++ Text.quoted host ++ ": " ++ fault)
    | none => if hosts.all (· = "") then some "must have at least 1 host" else none

def document (address : String) : Outcome Unit :=
  match documentFault? address with
  | some fault => .error (.within "connect mongo" (.within "error parsing uri" (.note fault)))
  | none => .ok ()

end NeutralQuery.Connection
