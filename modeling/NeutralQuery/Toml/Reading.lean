import NeutralQuery.Decimal.Reading
import NeutralQuery.Time.Layout
import NeutralQuery.Toml.Table

namespace NeutralQuery.Toml

/-- Reads a part of a text and returns the rest. -/
abbrev Reader (α : Type) := List Char → Option (α × List Char)

def isBlank (c : Char) : Bool := c = ' ' || c = '\t'

def skipBlanks (cs : List Char) : List Char := cs.dropWhile isBlank

/-- Control characters other than the tabulator stand in no text and no comment. -/
def isControl (c : Char) : Bool := (c.toNat < 0x20 && c != '\t') || c.toNat == 0x7f

def skipComment : List Char → Option (List Char)
  | '#' :: rest =>
    let body := rest.takeWhile fun c => c != '\n' && c != '\r'
    if body.any isControl then none else some (rest.drop body.length)
  | cs => some cs

def skipLines : Nat → List Char → Option (List Char)
  | 0, cs => some cs
  | fuel + 1, cs =>
    match skipComment (skipBlanks cs) with
    | some ('\n' :: rest) => skipLines fuel rest
    | some ('\r' :: '\n' :: rest) => skipLines fuel rest
    | other => other

def endLine (cs : List Char) : Option (List Char) :=
  match skipComment (skipBlanks cs) with
  | some [] => some []
  | some ('\n' :: rest) => some rest
  | some ('\r' :: '\n' :: rest) => some rest
  | _ => none

def escapes : List (Char × Nat) :=
  [('b', 8), ('t', 9), ('n', 10), ('f', 12), ('r', 13), ('e', 27), ('"', 34), ('\\', 92)]

def charOf? (digits : List Char) : Option Char :=
  (digits.mapM Text.hexValue?).bind fun ds =>
    let n := Text.natOfDigits 16 ds
    if n.isValidChar then some (Char.ofNat n) else none

def basic : Reader (List Char)
  | [] => none
  | '"' :: rest => some ([], rest)
  | '\\' :: 'u' :: a :: b :: c :: d :: rest => do
    let first ← charOf? [a, b, c, d]
    (basic rest).map fun (text, rest) => (first :: text, rest)
  | '\\' :: 'U' :: a :: b :: c :: d :: e :: f :: g :: h :: rest => do
    let first ← charOf? [a, b, c, d, e, f, g, h]
    (basic rest).map fun (text, rest) => (first :: text, rest)
  | '\\' :: c :: rest => do
    let (_, n) ← escapes.find? fun e => e.1 == c
    (basic rest).map fun (text, rest) => (Char.ofNat n :: text, rest)
  | c :: rest =>
    if c = '\\' || isControl c then none
    else (basic rest).map fun (text, rest) => (c :: text, rest)

/-- The text up to a single quote, with nothing escaped. -/
def literal : Reader (List Char)
  | [] => none
  | c :: rest =>
    if c = '\'' then some ([], rest)
    else if isControl c then none
    else (literal rest).map fun (text, rest) => (c :: text, rest)

def isSpace (c : Char) : Bool := isBlank c || c = '\n' || c = '\r'

def endsLine (cs : List Char) : Bool :=
  match skipBlanks cs with
  | '\n' :: _ => true
  | '\r' :: '\n' :: _ => true
  | _ => false

/-- The text up to three double quotes; up to two more quotes before them belong to the text.
While `joining`, blanks and breaks are dropped. -/
def longBasic (joining : Bool) : Reader (List Char)
  | [] => none
  | '"' :: '"' :: '"' :: '"' :: '"' :: rest => some (['"', '"'], rest)
  | '"' :: '"' :: '"' :: '"' :: rest => some (['"'], rest)
  | '"' :: '"' :: '"' :: rest => some ([], rest)
  | '\\' :: 'u' :: a :: b :: c :: d :: rest => do
    let first ← charOf? [a, b, c, d]
    (longBasic false rest).map fun (text, rest) => (first :: text, rest)
  | '\\' :: 'U' :: a :: b :: c :: d :: e :: f :: g :: h :: rest => do
    let first ← charOf? [a, b, c, d, e, f, g, h]
    (longBasic false rest).map fun (text, rest) => (first :: text, rest)
  | '\\' :: c :: rest =>
    if endsLine (c :: rest) then longBasic true rest
    else do
      let (_, n) ← escapes.find? fun e => e.1 == c
      (longBasic false rest).map fun (text, rest) => (Char.ofNat n :: text, rest)
  | c :: rest =>
    if c = '\\' then none
    else if joining && isSpace c then longBasic true rest
    else if isControl c && !isSpace c then none
    else (longBasic false rest).map fun (text, rest) => (c :: text, rest)

def longLiteral : Reader (List Char)
  | [] => none
  | '\'' :: '\'' :: '\'' :: '\'' :: '\'' :: rest => some (['\'', '\''], rest)
  | '\'' :: '\'' :: '\'' :: '\'' :: rest => some (['\''], rest)
  | '\'' :: '\'' :: '\'' :: rest => some ([], rest)
  | c :: rest =>
    if isControl c && !isSpace c then none
    else (longLiteral rest).map fun (text, rest) => (c :: text, rest)

def dropBreak : List Char → List Char
  | '\n' :: rest => rest
  | '\r' :: '\n' :: rest => rest
  | cs => cs

def isBare (c : Char) : Bool := c.isAlphanum || c = '_' || c = '-'

def simpleKey : Reader String
  | '"' :: rest => (basic rest).map fun (text, rest) => (String.ofList text, rest)
  | '\'' :: rest => (literal rest).map fun (text, rest) => (String.ofList text, rest)
  | cs =>
    match cs.takeWhile isBare with
    | [] => none
    | name => some (String.ofList name, cs.dropWhile isBare)

def dottedKey : Nat → Reader (List String)
  | 0, _ => none
  | fuel + 1, cs =>
    match simpleKey (skipBlanks cs) with
    | none => none
    | some (key, rest) =>
      match skipBlanks rest with
      | '.' :: rest => (dottedKey fuel rest).map fun (keys, rest) => (key :: keys, rest)
      | rest => some ([key], rest)

def hasNoLeadingZero : List Char → Bool
  | '0' :: c :: _ => !Text.isDigit c && c != '_'
  | _ => true

def isSeparated : List Char → Bool
  | [] => true
  | [c] => Text.isDigit c
  | a :: b :: rest =>
    (a != '_' && a != '.' || Text.isDigit b) && (b != '_' && b != '.' || Text.isDigit a) &&
      isSeparated (b :: rest)

def integer? (token : List Char) : Option Value :=
  let body := (Decimal.dropSign token).2
  let marked := (Decimal.baseMark? body).isSome && body.length == token.length
  let plain := body.all (fun c => Text.isDigit c || c == '_') && hasNoLeadingZero body
  if marked || plain && !body.isEmpty && isSeparated body then
    (Decimal.readInt64 (String.ofList token)).toOption.map .ofInt64
  else none

def float? (token : List Char) : Option Value :=
  let (negative, body) := Decimal.dropSign token
  match String.ofList body with
  | "inf" => some (.float (if negative then -1 / 0 else 1 / 0))
  | "nan" => some (.float (0 / 0))
  | _ =>
    let mantissa := body.takeWhile fun c => c != 'e' && c != 'E'
    let startsWithDigit := (body.head?.map Text.isDigit).getD false
    if startsWithDigit && hasNoLeadingZero body && isSeparated mantissa then
      (Decimal.readFloat (String.ofList token)).toOption.map .float
    else none

def instantLayouts : List Time.Layout :=
  [.interchange, .dateAndTime "T" [], .date, .time]

def instant? (token : List Char) : Option Value :=
  let written := String.ofList (token.map fun c =>
    if c = ' ' || c = 't' then 'T' else if c = 'z' then 'Z' else c)
  (instantLayouts.findSome? fun l => l.read? written).map .time

def isTokenChar (c : Char) : Bool := isBare c || c = '+' || c = '.' || c = ':'

/-- The characters of a number, an instant or a truth value; a date may be followed by a time. -/
def token (cs : List Char) : List Char × List Char :=
  let first := cs.takeWhile isTokenChar
  let rest := cs.dropWhile isTokenChar
  match rest with
  | ' ' :: c :: more =>
    if first.length = 10 && first.contains '-' && Text.isDigit c then
      (first ++ ' ' :: (c :: more).takeWhile isTokenChar, (c :: more).dropWhile isTokenChar)
    else (first, rest)
  | _ => (first, rest)

def atom? (t : List Char) : Option Value :=
  match String.ofList t with
  | "true" => some (.bool true)
  | "false" => some (.bool false)
  | _ => (integer? t).or ((float? t).or (instant? t))

mutual

def readValue : Nat → Reader Value
  | 0, _ => none
  | fuel + 1, cs =>
    match cs with
    | '"' :: '"' :: '"' :: rest =>
      (longBasic false (dropBreak rest)).map fun (text, rest) => (.text (String.ofList text), rest)
    | '"' :: rest => (basic rest).map fun (text, rest) => (.text (String.ofList text), rest)
    | '\'' :: '\'' :: '\'' :: rest =>
      (longLiteral (dropBreak rest)).map fun (text, rest) => (.text (String.ofList text), rest)
    | '\'' :: rest => (literal rest).map fun (text, rest) => (.text (String.ofList text), rest)
    | '[' :: rest => (readItems fuel rest).map fun (items, rest) => (.list items, rest)
    | '\x7b' :: rest =>
      match skipBlanks rest with
      | '\x7d' :: rest => some (.record [], rest)
      | rest => (readMembers fuel [] rest).map fun (t, rest) => (.record (toValues t), rest)
    | cs => (atom? (token cs).1).map fun v => (v, (token cs).2)

/-- The members of a list up to its closing bracket; a comma may follow the last one. -/
def readItems : Nat → Reader (List Value)
  | 0, _ => none
  | fuel + 1, cs =>
    match skipLines cs.length cs with
    | none => none
    | some (']' :: rest) => some ([], rest)
    | some cs =>
      match readValue fuel cs with
      | none => none
      | some (v, rest) =>
        match skipLines rest.length rest with
        | some (',' :: rest) => (readItems fuel rest).map fun (vs, rest) => (v :: vs, rest)
        | some (']' :: rest) => some ([v], rest)
        | _ => none

def readMembers : Nat → Entries → Reader Entries
  | 0, _, _ => none
  | fuel + 1, entries, cs =>
    match dottedKey cs.length cs with
    | some (path, '=' :: rest) =>
      match readValue fuel (skipBlanks rest) with
      | none => none
      | some (v, rest) =>
        match assign v path entries with
        | none => none
        | some entries =>
          match skipBlanks rest with
          | ',' :: rest => readMembers fuel entries rest
          | '\x7d' :: rest => some (entries, rest)
          | _ => none
    | _ => none

end

def header (cs : List Char) : Option ((Bool × List String) × List Char) :=
  let (isRepeated, body) := match cs with
    | '[' :: rest => (true, rest)
    | rest => (false, rest)
  match isRepeated, dottedKey body.length body with
  | true, some (path, ']' :: ']' :: rest) => some ((true, path), rest)
  | false, some (path, ']' :: rest) => some ((false, path), rest)
  | _, _ => none

def openHeader (isRepeated : Bool) (path : List String) (root : Entries) : Option Entries :=
  let key := path.getLastD ""
  within (if isRepeated then openNext key else openTable key) path.dropLast root

def readFrom (root : Entries) (current : List String) : Nat → List Char → Option Entries
  | 0, _ => none
  | fuel + 1, cs =>
    match skipLines cs.length cs with
    | none => none
    | some [] => some root
    | some ('[' :: rest) =>
      match header rest with
      | none => none
      | some ((isRepeated, path), rest) =>
        match openHeader isRepeated path root, endLine rest with
        | some root, some rest => readFrom root path fuel rest
        | _, _ => none
    | some cs =>
      match dottedKey cs.length cs with
      | some (path, '=' :: rest) =>
        match readValue rest.length (skipBlanks rest) with
        | none => none
        | some (v, rest) =>
          match within (assign v path) current root, endLine rest with
          | some root, some rest => readFrom root current fuel rest
          | _, _ => none
      | _ => none

/-- The table that a document describes. -/
def read (s : String) : Option (List (String × Value)) :=
  (readFrom [] [] (s.length + 1) s.toList).map toValues

end NeutralQuery.Toml
