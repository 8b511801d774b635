import NeutralQuery.Text.Case
import NeutralQuery.Text.Quoted

namespace NeutralQuery

/-- An identifier written as hexadecimal groups. -/
structure Uuid where
  bytes : List UInt8
deriving DecidableEq

/-- An identifier written as 26 base-32 characters. -/
structure Ulid where
  bytes : List UInt8
deriving DecidableEq

/-- Why a text is no identifier. -/
inductive IdentifierError where
  | uuidLength (length : Nat)
  | uuidUrn (start : List UInt8)
  | uuidFormat
  | uuidBytes (length : Nat)
  | ulidSize
  | ulidCharacters
  | ulidOverflow
deriving DecidableEq

def IdentifierError.message : IdentifierError → String
  | .uuidLength n => "invalid UUID length: " ++ Text.ofNat n
  | .uuidUrn start => "invalid urn prefix: " ++ Text.quotedBytes start
  | .uuidFormat => "invalid UUID format"
  | .uuidBytes n => "invalid UUID (got " ++ Text.ofNat n ++ " bytes)"
  | .ulidSize => "ulid: bad data size when unmarshaling"
  | .ulidCharacters => "ulid: bad data characters when unmarshaling"
  | .ulidOverflow => "ulid: overflow when unmarshaling"

def compareBytes : List UInt8 → List UInt8 → Ordering
  | [], [] => .eq
  | [], _ :: _ => .lt
  | _ :: _, [] => .gt
  | a :: as, b :: bs => (compare a.toNat b.toNat).then (compareBytes as bs)

namespace Uuid

def text (u : Uuid) : String :=
  let part := fun (start size : Nat) => Text.hexBytes ((u.bytes.drop start).take size)
  "-".intercalate [part 0 4, part 4 2, part 6 2, part 8 2, part 10 6]

def ofBytes (bytes : List UInt8) : Except IdentifierError Uuid :=
  if bytes.length = 16 then .ok ⟨bytes⟩ else .error (.uuidBytes bytes.length)

def ofHex (digits : List Char) : Except IdentifierError Uuid :=
  match Text.bytesOfHex? digits with
  | some bytes => if bytes.length = 16 then .ok ⟨bytes⟩ else .error .uuidFormat
  | none => .error .uuidFormat

def ofGroups (cs : List Char) : Except IdentifierError Uuid :=
  let isHyphen := fun (i : Nat) => cs[i]? == some '-'
  if isHyphen 8 && isHyphen 13 && isHyphen 18 && isHyphen 23 then
    let part := fun (start size : Nat) => (cs.drop start).take size
    ofHex (part 0 8 ++ part 9 4 ++ part 14 4 ++ part 19 4 ++ part 24 12)
  else .error .uuidFormat

/-- Four forms of the bytes of a text, by length: with hyphens, with a name-space mark, in brackets,
and bare digits. -/
def parseBytes (bytes : List UInt8) : Except IdentifierError Uuid :=
  let cs := bytes.map fun b => Char.ofNat b.toNat
  match bytes.length with
  | 36 => ofGroups cs
  | 45 =>
    let start := bytes.take 9
    if (Text.ofUtf8? start).any (Text.sameFold · "urn:uuid:") then ofGroups (cs.drop 9)
    else .error (.uuidUrn start)
  | 38 => ofGroups (cs.drop 1)
  | 32 => ofHex cs
  | n => .error (.uuidLength n)

def parse (s : String) : Except IdentifierError Uuid := parseBytes (Text.utf8 s)

end Uuid

namespace Ulid

def alphabet : List Char := "0123456789ABCDEFGHJKMNPQRSTVWXYZ".toList

def toNat (u : Ulid) : Nat := Text.natOfDigits 256 (u.bytes.map UInt8.toNat)

def bytesOfNat : Nat → Nat → List UInt8
  | 0, _ => []
  | count + 1, n => bytesOfNat count (n / 256) ++ [UInt8.ofNat n]

def lettersOfNat : Nat → Nat → List Char
  | 0, _ => []
  | count + 1, n => lettersOfNat count (n / 32) ++ [alphabet.getD (n % 32) '0']

def text (u : Ulid) : String := String.ofList (lettersOfNat 26 u.toNat)

def parseBytes (bytes : List UInt8) : Except IdentifierError Ulid :=
  if bytes.length ≠ 26 then .error .ulidSize
  else
    match bytes.mapM fun b => alphabet.findIdx? (· == (Char.ofNat b.toNat).toUpper) with
    | none => .error .ulidCharacters
    | some digits =>
      if 7 < digits.headD 0 then .error .ulidOverflow
      else .ok ⟨bytesOfNat 16 (Text.natOfDigits 32 digits)⟩

def parse (s : String) : Except IdentifierError Ulid := parseBytes (Text.utf8 s)

end Ulid

end NeutralQuery
