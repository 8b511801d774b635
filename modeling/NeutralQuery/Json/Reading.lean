import NeutralQuery.Json.Basic
import NeutralQuery.Text.Quoted

namespace NeutralQuery.Json

/-- Where a text stops being notation. -/
inductive SyntaxError where
  | unexpectedEnd
  | unexpected (c : Char) (place : String)

def quotedByte (c : Char) : String :=
  if c = '\'' then "'\\''"
  else if c = '"' then "'\"'"
  else
    let first := ((Text.utf8 c.toString).headD 0).toNat
    "'" ++ Text.escapeChar (Char.ofNat first) ++ "'"

def SyntaxError.message : SyntaxError → String
  | .unexpectedEnd => "unexpected end of JSON input"
  | .unexpected c place => "invalid character " ++ quotedByte c ++ " " ++ place

abbrev Reader (α : Type) := List Char → Except SyntaxError (α × List Char)

/-- What is wrong where something else had to stand. -/
def fault (place : String) : List Char → SyntaxError
  | [] => .unexpectedEnd
  | c :: _ => .unexpected c place

def isBlank (c : Char) : Bool := c = ' ' || c = '\t' || c = '\n' || c = '\r'

def skipBlanks (cs : List Char) : List Char := cs.dropWhile isBlank

def inText : String := "in string literal"

def inEscape : String := "in string escape code"

def inUnit : String := "in \\u hexadecimal character escape"

def escapes : List (Char × Nat) :=
  [('"', 34), ('\\', 92), ('/', 47), ('b', 8), ('f', 12), ('n', 10), ('r', 13), ('t', 9)]

def unit? (a b c d : Char) : Option Nat :=
  ([a, b, c, d].mapM Text.hexValue?).map (Text.natOfDigits 16)

/-- The code points of a text up to its closing quote; halves of pairs stand alone. -/
def readUnits : Reader (List Nat)
  | [] => .error .unexpectedEnd
  | '"' :: rest => .ok ([], rest)
  | '\\' :: 'u' :: a :: b :: c :: d :: rest =>
    match unit? a b c d with
    | none => .error (fault inUnit ([a, b, c, d].dropWhile fun x => (Text.hexValue? x).isSome))
    | some n => (readUnits rest).map fun (units, rest) => (n :: units, rest)
  | '\\' :: 'u' :: rest =>
    .error (fault inUnit (rest.dropWhile fun x => (Text.hexValue? x).isSome))
  | '\\' :: c :: rest =>
    match (escapes.find? fun e => e.1 == c).map (·.2) with
    | none => .error (.unexpected c inEscape)
    | some n => (readUnits rest).map fun (units, rest) => (n :: units, rest)
  | c :: rest =>
    if c = '\\' then .error .unexpectedEnd
    else if c.toNat < 0x20 then .error (.unexpected c inText)
    else (readUnits rest).map fun (units, rest) => (c.toNat :: units, rest)

def isHighHalf (n : Nat) : Bool := decide (0xd800 ≤ n) && decide (n < 0xdc00)

def isLowHalf (n : Nat) : Bool := decide (0xdc00 ≤ n) && decide (n < 0xe000)

/-- Joins the halves of pairs; a half without its other one shows as the replacement character. -/
def charsOfUnits : List Nat → List Char
  | [] => []
  | [n] => [if isHighHalf n || isLowHalf n then Char.ofNat 0xfffd else Char.ofNat n]
  | hi :: lo :: rest =>
    if isHighHalf hi && isLowHalf lo then
      Char.ofNat (0x10000 + (hi - 0xd800) * 0x400 + (lo - 0xdc00)) :: charsOfUnits rest
    else if isHighHalf hi || isLowHalf hi then Char.ofNat 0xfffd :: charsOfUnits (lo :: rest)
    else Char.ofNat hi :: charsOfUnits (lo :: rest)

def readText : Reader String := fun cs =>
  (readUnits cs).map fun (units, rest) => (String.ofList (charsOfUnits units), rest)

def readDigits (place : String) : Reader (List Char) := fun cs =>
  match cs.takeWhile Text.isDigit with
  | [] => .error (fault place cs)
  | digits => .ok (digits, cs.dropWhile Text.isDigit)

def readWhole : Reader (List Char)
  | '0' :: rest => .ok (['0'], rest)
  | cs => readDigits "in numeric literal" cs

def readFraction : Reader (List Char)
  | '.' :: rest =>
    (readDigits "after decimal point in numeric literal" rest).map fun (ds, rest) =>
      ('.' :: ds, rest)
  | cs => .ok ([], cs)

def exponentPlace : String := "in exponent of numeric literal"

def readExponent : Reader (List Char)
  | [] => .ok ([], [])
  | e :: rest =>
    if e = 'e' || e = 'E' then
      match rest with
      | [] => .error .unexpectedEnd
      | s :: more =>
        if s = '+' || s = '-' then
          (readDigits exponentPlace more).map fun (ds, rest) => (e :: s :: ds, rest)
        else (readDigits exponentPlace rest).map fun (ds, rest) => (e :: ds, rest)
    else .ok ([], e :: rest)

def readNumber : Reader String := fun cs => do
  let (sign, cs) := match cs with
    | '-' :: rest => (['-'], rest)
    | cs => ([], cs)
  let (whole, cs) ← readWhole cs
  let (fraction, cs) ← readFraction cs
  let (exponent, cs) ← readExponent cs
  return (String.ofList (sign ++ whole ++ fraction ++ exponent), cs)

def expecting (word : String) (c : Char) : String :=
  "in literal " ++ word ++ " (expecting " ++ quotedByte c ++ ")"

/-- The rest of a word whose beginning decided what stands there. -/
def readWord (word : String) (v : Json) : List Char → Reader Json
  | [], cs => .ok (v, cs)
  | _ :: _, [] => .error .unexpectedEnd
  | w :: ws, c :: cs =>
    if c = w then readWord word v ws cs else .error (.unexpected c (expecting word w))

def valuePlace : String := "looking for beginning of value"

def keyPlace : String := "looking for beginning of object key string"

mutual

/-- Reads a tree; `fuel` bounds the depth and the number of members. -/
def readTree : Nat → Reader Json
  | 0, _ => .error .unexpectedEnd
  | fuel + 1, cs =>
    match skipBlanks cs with
    | '"' :: rest => (readText rest).map fun (s, rest) => (.text s, rest)
    | '\x7b' :: rest =>
      match skipBlanks rest with
      | '\x7d' :: rest => .ok (.record [], rest)
      | rest => (readMembers fuel rest).map fun (entries, rest) => (.record entries, rest)
    | '[' :: rest =>
      match skipBlanks rest with
      | ']' :: rest => .ok (.list [], rest)
      | rest => (readItems fuel rest).map fun (items, rest) => (.list items, rest)
    | 't' :: rest => readWord "true" (.bool true) "rue".toList rest
    | 'f' :: rest => readWord "false" (.bool false) "alse".toList rest
    | 'n' :: rest => readWord "null" .null "ull".toList rest
    | c :: rest =>
      if c = '-' || Text.isDigit c then
        (readNumber (c :: rest)).map fun (token, rest) => (.number token, rest)
      else .error (.unexpected c valuePlace)
    | [] => .error .unexpectedEnd

def readItems : Nat → Reader (List Json)
  | 0, _ => .error .unexpectedEnd
  | fuel + 1, cs =>
    match readTree fuel cs with
    | .error e => .error e
    | .ok (v, rest) =>
      match skipBlanks rest with
      | ']' :: rest => .ok ([v], rest)
      | ',' :: rest => (readItems fuel rest).map fun (vs, rest) => (v :: vs, rest)
      | rest => .error (fault "after array element" rest)

def readMembers : Nat → Reader (List (String × Json))
  | 0, _ => .error .unexpectedEnd
  | fuel + 1, cs =>
    match skipBlanks cs with
    | '"' :: rest =>
      match readText rest with
      | .error e => .error e
      | .ok (key, rest) =>
        match skipBlanks rest with
        | ':' :: rest =>
          match readTree fuel rest with
          | .error e => .error e
          | .ok (v, rest) =>
            match skipBlanks rest with
            | '\x7d' :: rest => .ok ([(key, v)], rest)
            | ',' :: rest =>
              (readMembers fuel rest).map fun (entries, rest) => ((key, v) :: entries, rest)
            | rest => .error (fault "after object key:value pair" rest)
        | rest => .error (fault "after object key" rest)
    | rest => .error (fault keyPlace rest)

end

/-- The tree that a whole text denotes. -/
def read (s : String) : Except SyntaxError Json :=
  let cs := s.toList
  match readTree (cs.length + 1) cs with
  | .error e => .error e
  | .ok (v, rest) =>
    match skipBlanks rest with
    | [] => .ok v
    | rest => .error (fault "after top-level value" rest)

end NeutralQuery.Json
