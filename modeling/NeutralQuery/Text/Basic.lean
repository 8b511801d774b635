namespace NeutralQuery.Text

/-- The parts of a text between the places where `sep` stands. -/
def splitChars (sep : Char) : List Char → List (List Char)
  | [] => [[]]
  | c :: cs =>
    if c = sep then [] :: splitChars sep cs
    else
      match splitChars sep cs with
      | [] => [[c]]
      | part :: parts => (c :: part) :: parts

def joinChars (sep : Char) : List (List Char) → List Char
  | [] => []
  | [part] => part
  | part :: parts => part ++ sep :: joinChars sep parts

def split (sep : Char) (s : String) : List String :=
  (splitChars sep s.toList).map String.ofList

def join (sep : Char) (parts : List String) : String :=
  String.ofList (joinChars sep (parts.map String.toList))

def holds [BEq α] (sub : List α) : List α → Bool
  | [] => sub.isEmpty
  | c :: cs => sub.isPrefixOf (c :: cs) || holds sub cs

def contains (s sub : String) : Bool := holds sub.toList s.toList

def startsWith (s sub : String) : Bool := sub.toList.isPrefixOf s.toList

def endsWith (s sub : String) : Bool := sub.toList.isSuffixOf s.toList

/-- The rest of the text after a known beginning. -/
def dropStart? (s start : String) : Option String :=
  if startsWith s start then some (String.ofList (s.toList.drop start.length)) else none

def dropEnd? (s ending : String) : Option String :=
  if endsWith s ending then some (String.ofList (s.toList.take (s.length - ending.length)))
  else none

/-- Each character is replaced by a text of its own. -/
def mapChars (f : Char → List Char) (s : String) : String :=
  String.ofList (s.toList.flatMap f)

/-- The text before and after the first `sep`. -/
def cutAt (sep : Char) : List Char → Option (List Char × List Char)
  | [] => none
  | c :: cs =>
    if c = sep then some ([], cs)
    else (cutAt sep cs).map fun (before, after) => (c :: before, after)

def isDigit (c : Char) : Bool := decide ('0' ≤ c) && decide (c ≤ '9')

def isUpperLetter (c : Char) : Bool := decide ('A' ≤ c) && decide (c ≤ 'Z')

def digitValue (c : Char) : Nat := c.toNat - '0'.toNat

def hexValue? (c : Char) : Option Nat :=
  if isDigit c then some (digitValue c)
  else if decide ('a' ≤ c) && decide (c ≤ 'f') then some (c.toNat - 'a'.toNat + 10)
  else if decide ('A' ≤ c) && decide (c ≤ 'F') then some (c.toNat - 'A'.toNat + 10)
  else none

def natOfDigits (base : Nat) (digits : List Nat) : Nat :=
  digits.foldl (fun n d => n * base + d) 0

/-- At least `width` characters, filled with `fill` on the left. -/
def padLeft (width : Nat) (fill : Char) (s : String) : String :=
  String.ofList (List.replicate (width - s.length) fill) ++ s

def ofNat (n : Nat) : String := String.ofList (Nat.toDigits 10 n)

def ofInt (n : Int) : String :=
  if n < 0 then "-" ++ ofNat n.natAbs else ofNat n.natAbs

def hex (n : Nat) : String := String.ofList (Nat.toDigits 16 n)

def hex2 (b : UInt8) : String := padLeft 2 '0' (hex b.toNat)

def hexBytes (bytes : List UInt8) : String := "".intercalate (bytes.map hex2)

def bytesOfHex? : List Char → Option (List UInt8)
  | [] => some []
  | a :: b :: rest => do
    let hi ← hexValue? a
    let lo ← hexValue? b
    let bytes ← bytesOfHex? rest
    return UInt8.ofNat (hi * 16 + lo) :: bytes
  | [_] => none

def utf8 (s : String) : List UInt8 := s.toUTF8.toList

def ofUtf8? (bytes : List UInt8) : Option String := String.fromUTF8? ⟨bytes.toArray⟩

def firstChar? (bytes : List UInt8) : Option (Char × Nat) :=
  [1, 2, 3, 4].findSome? fun n =>
    match (ofUtf8? (bytes.take n)).map String.toList with
    | some [c] => some (c, n - 1)
    | _ => none

def decodeAfter : Nat → List UInt8 → List (UInt8 ⊕ Char)
  | _, [] => []
  | n + 1, _ :: rest => decodeAfter n rest
  | 0, b :: rest =>
    match firstChar? (b :: rest) with
    | some (c, n) => .inr c :: decodeAfter n rest
    | none => .inl b :: decodeAfter 0 rest

def decode (bytes : List UInt8) : List (UInt8 ⊕ Char) := decodeAfter 0 bytes

/-- The text of some bytes; those that encode no character become replacement characters. -/
def ofBytes (bytes : List UInt8) : String :=
  String.ofList ((decode bytes).map fun
    | .inl _ => Char.ofNat 0xfffd
    | .inr c => c)

end NeutralQuery.Text
