import NeutralQuery.Error
import NeutralQuery.Yaml.Reading

namespace NeutralQuery.Yaml

def entries? : Node → Option (List (String × Node))
  | .mapping entries => entries.mapM fun e => e.1.text?.map fun key => (key, e.2)
  | n => if n.isNull then some [] else none

/-- The entries of a mapping with no keys but the given ones. -/
def knownEntries? (keys : List String) (n : Node) : Option (List (String × Node)) :=
  (entries? n).filter fun entries => entries.all fun e => keys.contains e.1

/-- The entry of a key; null where there is none. -/
def entry (entries : List (String × Node)) (key : String) : Node :=
  ((entries.find? fun e => e.1 == key).map (·.2)).getD nothing

def text? (n : Node) : Option String := if n.isNull then some "" else n.text?

def yesWords : List String := ["y", "Y", "yes", "Yes", "YES", "on", "On", "ON"]

def noWords : List String := ["n", "N", "no", "No", "NO", "off", "Off", "OFF"]

def bool? (n : Node) : Option Bool :=
  match n.value? with
  | some .null => some false
  | some (.bool b) => some b
  | some (.text s) =>
    if yesWords.contains s then some true else if noWords.contains s then some false else none
  | _ => none

def int? (n : Node) : Option (Option Int) :=
  match n.value? with
  | some .null => some none
  | some (.int _ i) => if IntKind.int64.Holds i then some (some i) else none
  | some (.float x) =>
    match (Decimal.binaryOfDouble x).truncate? with
    | some (i, _) => if IntKind.int64.Holds i then some (some i) else none
    | none => none
  | _ => none

def list? (f : Node → Option α) : Node → Option (List α)
  | .sequence items => (items.filter fun n => !n.isNull).mapM f
  | n => if n.isNull then some [] else none

def unfit : Failure := .note "yaml: the document does not have the expected form"

/-- Reads a document and takes it apart. -/
def decode (context : String) (f : Node → Option α) (s : String) : Outcome α :=
  match read s with
  | .empty => .error (.within context (.note "EOF"))
  | .malformed => .error (.within context unfit)
  | .tree n =>
    match f n with
    | some a => .ok a
    | none => .error (.within context unfit)

end NeutralQuery.Yaml
