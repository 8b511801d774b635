import NeutralQuery.CommandLine.Flags
import NeutralQuery.Text.Case

namespace NeutralQuery.CommandLine

inductive Command where
  | root
  | compile
  | run
  /-- Commands that only explain the others. -/
  | help
  | completion
deriving DecidableEq

namespace Command

def programName : String := "asceticquery"

/-- The commands below the root. -/
def all : List Command := [.compile, .run, .help, .completion]

def name : Command → String
  | .root => programName
  | .compile => "compile"
  | .run => "run"
  | .help => "help"
  | .completion => "completion"

def sharedFlags : List Flag :=
  [⟨"config", some 'c', .text⟩, ⟨"catalog", none, .text⟩, ⟨"backend", some 'b', .text⟩,
    ⟨"verbose", some 'v', .switch⟩]

def ownFlags : Command → List Flag
  | .compile => [⟨"count", none, .switch⟩]
  | .run =>
    [⟨"count", none, .switch⟩, ⟨"paged", none, .switch⟩, ⟨"page-size", none, .whole⟩,
      ⟨"data", none, .text⟩]
  | _ => []

def helpFlag : Flag := ⟨"help", some 'h', .switch⟩

def flags (c : Command) : List Flag := helpFlag :: (sharedFlags ++ c.ownFlags)

end Command

def isSwitch (flags : List Flag) (p : Flag → Bool) : Bool :=
  (flags.find? p).any fun f => f.kind = .switch

def takesNext (flags : List Flag) (word : String) : Bool :=
  !Text.contains word "=" &&
    match word.toList with
    | '-' :: '-' :: name => !isSwitch flags fun f => f.name == String.ofList name
    | ['-', c] => c.toNat < 128 && !isSwitch flags fun f => f.letter == some c
    | _ => false

/-- The words that are neither flags nor values of flags. A flag that wants a value ends the search
when at most one word follows it. -/
def wordsOf (flags : List Flag) : List String → List String
  | [] => []
  | word :: rest =>
    if word = "--" then []
    else if takesNext flags word then
      match rest with
      | _ :: next :: rest => wordsOf flags (next :: rest)
      | _ => []
    else if word = "" || Text.startsWith word "-" then wordsOf flags rest
    else word :: wordsOf flags rest

/-- Leaves out the first word that is `name` and no value of a flag. -/
def removeFirst (flags : List Flag) (name : String) : List String → List String
  | [] => []
  | word :: rest =>
    if word = "--" then word :: rest
    else if takesNext flags word then
      match rest with
      | value :: rest => word :: value :: removeFirst flags name rest
      | [] => [word]
    else if word = name then rest
    else word :: removeFirst flags name rest

/-- One row of the table of distances: from a beginning of one list, with `c` as its last member, to
all beginnings of the other. -/
def distanceRow (c : UInt8) : List UInt8 → List Nat → Nat → List Nat
  | t :: ts, diagonal :: above :: rest, left =>
    let cost := if c = t then diagonal else min diagonal (min above left) + 1
    cost :: distanceRow c ts (above :: rest) cost
  | _, _, _ => []

def distanceFrom (t : List UInt8) : List UInt8 → Nat → List Nat → Nat
  | [], _, row => row.getLastD 0
  | c :: cs, i, row => distanceFrom t cs (i + 1) ((i + 1) :: distanceRow c t row (i + 1))

def distance (s t : String) : Nat :=
  let target := Text.utf8 t
  distanceFrom target (Text.utf8 s) 0 (List.range (target.length + 1))

def suggestions (word : String) : List String :=
  let typed := Text.lower word
  ([Command.compile, .run, .completion].map Command.name).filter fun name =>
    distance typed name ≤ 2 || Text.startsWith name typed

def unknownCommand (word : String) : Failure :=
  let similar := suggestions word
  let hint :=
    if similar.isEmpty then ""
    else "\n\nDid you mean this?\n" ++ "".intercalate (similar.map fun n => "\t" ++ n ++ "\n")
  .note ("unknown command " ++ Text.quoted word ++ " for " ++ Text.quoted Command.programName ++
    hint)

def findCommand (words : List String) : Outcome (Command × List String) :=
  match wordsOf Command.sharedFlags words with
  | [] => .ok (.root, words)
  | first :: _ =>
    match Command.all.find? fun c => c.name == first with
    | some c => .ok (c, removeFirst Command.sharedFlags first words)
    | none => .error (unknownCommand first)

end NeutralQuery.CommandLine
