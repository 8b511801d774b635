import NeutralQuery.Error
import NeutralQuery.Scalar.Lenient

namespace NeutralQuery.CommandLine

inductive FlagKind where
  | text
  | switch
  | whole
deriving DecidableEq

structure Flag where
  name : String
  letter : Option Char := none
  kind : FlagKind

inductive FlagValue where
  | text (s : String)
  | switch (b : Bool)
  | whole (n : Int)

inductive FlagError where
  | badSyntax (word : String)
  | unknown (name : String)
  | unknownLetter (letter : Char) (letters : String)
  | noValue (word : String)
  | noLetterValue (letter : Char) (letters : String)
  | badSwitch (flag : Flag) (value : String)
  | badWhole (flag : Flag) (value : String) (e : Decimal.NumeralError)

def Flag.shown (f : Flag) : String :=
  match f.letter with
  | some c => "-" ++ c.toString ++ ", --" ++ f.name
  | none => "--" ++ f.name

def quotedLetter (c : Char) : String :=
  if c = '\'' then "'\\''"
  else if c = '"' then "'\"'"
  else "'" ++ Text.escapeChar (Char.ofNat ((Text.utf8 c.toString).headD 0).toNat) ++ "'"

def FlagError.message : FlagError → String
  | .badSyntax word => "bad flag syntax: " ++ word
  | .unknown name => "unknown flag: --" ++ name
  | .unknownLetter c letters => "unknown shorthand flag: " ++ quotedLetter c ++ " in -" ++ letters
  | .noValue word => "flag needs an argument: " ++ word
  | .noLetterValue c letters =>
    "flag needs an argument: " ++ quotedLetter c ++ " in -" ++ letters
  | .badSwitch flag value =>
    "invalid argument " ++ Text.quoted value ++ " for " ++ Text.quoted flag.shown ++
      " flag: strconv.ParseBool: parsing " ++ Text.quoted value ++ ": invalid syntax"
  | .badWhole flag value e =>
    "invalid argument " ++ Text.quoted value ++ " for " ++ Text.quoted flag.shown ++
      " flag: strconv.ParseInt: parsing " ++ Text.quoted value ++ ": " ++ e.message

/-- The value of a flag by its text. -/
def Flag.value (f : Flag) (s : String) : Except FlagError FlagValue :=
  match f.kind with
  | .text => .ok (.text s)
  | .switch =>
    match Lenient.bool? (.text s) with
    | some b => if s = "" then .error (.badSwitch f s) else .ok (.switch b)
    | none => .error (.badSwitch f s)
  | .whole =>
    match Decimal.readInt64 s with
    | .ok n => .ok (.whole n)
    | .error e => .error (.badWhole f s e)

/-- The flags that were set, and the other words. -/
structure Parsed where
  values : List (String × FlagValue) := []
  words : List String := []

namespace Parsed

def withValues (values : List (String × FlagValue)) (p : Parsed) : Parsed :=
  { p with values := values ++ p.values }

def withWord (word : String) (p : Parsed) : Parsed := { p with words := word :: p.words }

/-- What a flag was set to last. -/
def find? (p : Parsed) (name : String) : Option FlagValue :=
  (p.values.reverse.find? fun v => v.1 == name).map (·.2)

def text (p : Parsed) (name : String) : String :=
  match p.find? name with
  | some (.text s) => s
  | _ => ""

def switch (p : Parsed) (name : String) : Bool :=
  match p.find? name with
  | some (.switch b) => b
  | _ => false

def whole (p : Parsed) (name : String) : Int :=
  match p.find? name with
  | some (.whole n) => n
  | _ => 0

end Parsed

/-- The flags that a word sets, and whether it takes the next word as a value. -/
abbrev Step := Except FlagError (List (String × FlagValue) × Bool)

def setting (f : Flag) (s : String) : Except FlagError (String × FlagValue) :=
  (f.value s).map fun v => (f.name, v)

def longStep (flags : List Flag) (word : String) (next : Option String) : Step :=
  let body := word.toList.drop 2
  match body with
  | [] | '-' :: _ | '=' :: _ => .error (.badSyntax word)
  | _ =>
    let (name, written) :=
      match Text.cutAt '=' body with
      | some (name, value) => (String.ofList name, some (String.ofList value))
      | none => (String.ofList body, none)
    match flags.find? fun f => f.name == name with
    | none => .error (.unknown name)
    | some f =>
      match written, f.kind, next with
      | some value, _, _ => (setting f value).map fun v => ([v], false)
      | none, .switch, _ => (setting f "true").map fun v => ([v], false)
      | none, _, some value => (setting f value).map fun v => ([v], true)
      | none, _, none => .error (.noValue word)

def letterStep (flags : List Flag) (next : Option String) : List Char → Step
  | [] => .ok ([], false)
  | c :: rest =>
    let letters := String.ofList (c :: rest)
    match flags.find? fun f => f.letter == some c with
    | none => .error (.unknownLetter c letters)
    | some f =>
      match rest, f.kind, next with
      | '=' :: d :: more, _, _ =>
        (setting f (String.ofList (d :: more))).map fun v => ([v], false)
      | rest, .switch, next =>
        match setting f "true", letterStep flags next rest with
        | .error e, _ => .error e
        | .ok _, .error e => .error e
        | .ok v, .ok (vs, taken) => .ok (v :: vs, taken)
      | d :: more, _, _ => (setting f (String.ofList (d :: more))).map fun v => ([v], false)
      | [], _, some value => (setting f value).map fun v => ([v], true)
      | [], _, none => .error (.noLetterValue c letters)

def isWord (s : String) : Bool := !Text.startsWith s "-" || s = "-"

/-- Takes flags and other words apart. -/
def parse (flags : List Flag) : List String → Except FlagError Parsed
  | [] => .ok {}
  | word :: rest =>
    if isWord word then (parse flags rest).map (·.withWord word)
    else if word = "--" then .ok { words := rest }
    else
      let step :=
        if Text.startsWith word "--" then longStep flags word rest.head?
        else letterStep flags rest.head? (word.toList.drop 1)
      match step with
      | .error e => .error e
      | .ok (values, false) => (parse flags rest).map (·.withValues values)
      | .ok (values, true) =>
        match rest with
        | [] => .ok { values }
        | _ :: rest => (parse flags rest).map (·.withValues values)

end NeutralQuery.CommandLine
