import NeutralQuery.Text.Basic

namespace NeutralQuery.Yaml

/-- Blanks and breaks that wait for the text behind them. -/
inductive Pending where
  | blanks (cs : List Char)
  /-- Line breaks, the first of which may have been escaped. -/
  | breaks (escaped : Bool) (count : Nat)

namespace Pending

def none : Pending := .blanks []

def isNone : Pending → Bool
  | .blanks [] => true
  | _ => false

def hasBreak : Pending → Bool
  | .breaks _ _ => true
  | .blanks _ => false

def addBlank (c : Char) : Pending → Pending
  | .blanks cs => .blanks (cs ++ [c])
  | p => p

def addBreak : Pending → Pending
  | .blanks _ => .breaks false 1
  | .breaks escaped n => .breaks escaped (n + 1)

/-- What is left of blanks and breaks once text follows. -/
def flush : Pending → List Char
  | .blanks cs => cs
  | .breaks true n => List.replicate n '\n'
  | .breaks false 1 => [' ']
  | .breaks false n => List.replicate (n - 1) '\n'

end Pending

def escapes : List (Char × Nat) :=
  [('0', 0), ('a', 7), ('b', 8), ('t', 9), ('\t', 9), ('n', 10), ('v', 11), ('f', 12), ('r', 13),
    ('e', 27), (' ', 32), ('"', 34), ('/', 47), ('\\', 92), ('N', 0x85), ('_', 0xa0),
    ('L', 0x2028), ('P', 0x2029)]

def charOf? (digits : List Char) : Option Char :=
  (digits.mapM Text.hexValue?).bind fun ds =>
    let n := Text.natOfDigits 16 ds
    if n.isValidChar then some (Char.ofNat n) else none

/-- The text between double quotes, and what follows it. -/
def doubleQuoted : Pending → List Char → Option (List Char × List Char)
  | _, [] => none
  | p, '"' :: rest => some (p.flush, rest)
  | p, '\\' :: '\n' :: rest =>
    (doubleQuoted (.breaks true 0) rest).map fun (text, rest) => (p.flush ++ text, rest)
  | p, '\\' :: 'x' :: a :: b :: rest => do
    let c ← charOf? [a, b]
    let (text, rest) ← doubleQuoted .none rest
    return (p.flush ++ c :: text, rest)
  | p, '\\' :: 'u' :: a :: b :: c :: d :: rest => do
    let c ← charOf? [a, b, c, d]
    let (text, rest) ← doubleQuoted .none rest
    return (p.flush ++ c :: text, rest)
  | p, '\\' :: 'U' :: a :: b :: c :: d :: e :: f :: g :: h :: rest => do
    let c ← charOf? [a, b, c, d, e, f, g, h]
    let (text, rest) ← doubleQuoted .none rest
    return (p.flush ++ c :: text, rest)
  | p, '\\' :: c :: rest => do
    let (_, n) ← escapes.find? fun e => e.1 == c
    let (text, rest) ← doubleQuoted .none rest
    return (p.flush ++ Char.ofNat n :: text, rest)
  | p, c :: rest =>
    if c = '\\' then none
    else if c = '\n' then doubleQuoted p.addBreak rest
    else if c = ' ' || c = '\t' then doubleQuoted (p.addBlank c) rest
    else (doubleQuoted .none rest).map fun (text, rest) => (p.flush ++ c :: text, rest)

def singleQuoted : Pending → List Char → Option (List Char × List Char)
  | _, [] => none
  | p, '\'' :: '\'' :: rest =>
    (singleQuoted .none rest).map fun (text, rest) => (p.flush ++ '\'' :: text, rest)
  | p, c :: rest =>
    if c = '\'' then some (p.flush, rest)
    else if c = '\n' then singleQuoted p.addBreak rest
    else if c = ' ' || c = '\t' then singleQuoted (p.addBlank c) rest
    else (singleQuoted .none rest).map fun (text, rest) => (p.flush ++ c :: text, rest)

def isBlank (c : Char) : Bool := c = ' ' || c = '\t'

def isBlankOrBreak (c : Char) : Bool := isBlank c || c = '\n'

def blankNext : List Char → Bool
  | [] => true
  | c :: _ => isBlankOrBreak c

def isFlowMark (c : Char) : Bool :=
  c = ',' || c = '[' || c = ']' || c = '\x7b' || c = '\x7d'

def isMarker (column : Nat) (cs : List Char) : Bool :=
  column = 0 && (cs.take 3 = ['-', '-', '-'] || cs.take 3 = ['.', '.', '.']) &&
    blankNext (cs.drop 3)

def indicators : List Char := "-?:,[]\x7b\x7d#&*!|>'\"%@`".toList

def startsPlain (flow : Bool) : List Char → Bool
  | [] => false
  | c :: rest =>
    if isBlankOrBreak c then false
    else if !indicators.contains c then true
    else if c = '-' then !(rest.head?.map isBlank).getD false && !rest.isEmpty
    else !flow && (c = '?' || c = ':') && !blankNext rest

/-- How far plain scalars go. -/
structure Extent where
  /-- Inside brackets, where brackets and commas end them. -/
  flow : Bool
  /-- Keys stand on one line. -/
  oneLine : Bool
  /-- Further lines are indented at least this much. -/
  minColumn : Nat

/-- The text of a plain scalar and where it ends; `mark` is the place behind the text so far. -/
def plainFrom (e : Extent) (p : Pending) (mark : Nat × List Char) :
    Nat → List Char → List Char × (Nat × List Char)
  | _, [] => ([], mark)
  | column, c :: cs =>
    if isBlank c then plainFrom e (p.addBlank c) mark (column + 1) cs
    else if c = '\n' then
      if e.oneLine then ([], mark) else plainFrom e p.addBreak mark 0 cs
    else if c = ':' && blankNext cs || e.flow && isFlowMark c || c = '#' && !p.isNone then
      ([], mark)
    else if p.hasBreak && (decide (column < e.minColumn) || isMarker column (c :: cs)) then
      ([], mark)
    else
      let (text, stop) := plainFrom e .none (column + 1, cs) (column + 1) cs
      (p.flush ++ c :: text, stop)

/-- What happens to the breaks at the end. -/
inductive Chomping where
  | strip
  | clip
  | keep
deriving DecidableEq

def blockMarks : List Char → Chomping × Option Nat
  | [] => (.clip, none)
  | c :: rest =>
    let (chomping, indent) := blockMarks rest
    if c = '+' then (.keep, indent)
    else if c = '-' then (.strip, indent)
    else (chomping, some (Text.digitValue c))

def linesOf (cs : List Char) : List (List Char × Bool) :=
  let lines := Text.splitChars '\n' cs
  lines.mapIdx fun i l => (l, decide (i + 1 < lines.length))

def indentOf (line : List Char) : Nat := (line.takeWhile (· = ' ')).length

def isEmptyLine (line : List Char) : Bool := line.all (· = ' ')

def isBreakLine (indent : Nat) (line : List Char) : Bool :=
  isEmptyLine line && decide (line.length ≤ indent)

def belongs (indent : Nat) (line : List Char) : Bool :=
  isBreakLine indent line || decide (indent ≤ indentOf line)

/-- What has been read of a block scalar. -/
structure BlockText where
  text : List Char := []
  breakBefore : Bool := false
  breaks : Nat := 0
  blankBefore : Bool := false

def BlockText.add (folded : Bool) (indent : Nat) (b : BlockText) (line : List Char × Bool) :
    BlockText :=
  if isBreakLine indent line.1 then { b with breaks := b.breaks + (if line.2 then 1 else 0) }
  else
    let content := line.1.drop indent
    let blank := (content.head?.map isBlank).getD false
    let joint :=
      if folded && b.breakBefore && !b.blankBefore && !blank then
        if b.breaks = 0 then [' '] else []
      else if b.breakBefore then ['\n'] else []
    { text := b.text ++ joint ++ List.replicate b.breaks '\n' ++ content
      breakBefore := line.2, breaks := 0, blankBefore := blank }

def BlockText.finish (c : Chomping) (b : BlockText) : List Char :=
  let last := if b.breakBefore then ['\n'] else []
  match c with
  | .strip => b.text
  | .clip => b.text ++ last
  | .keep => b.text ++ last ++ List.replicate b.breaks '\n'

def joinLines (lines : List (List Char × Bool)) : List Char :=
  lines.flatMap fun l => if l.2 then l.1 ++ ['\n'] else l.1

def blockScalar (folded : Bool) (chomping : Chomping) (given : Option Nat) (parent : Int)
    (cs : List Char) : List Char × List Char :=
  let lines := linesOf cs
  let least := max 1 (parent + 1).toNat
  let indent :=
    match given with
    | some n => (if 0 ≤ parent then parent.toNat else 0) + n
    | none =>
      let found := (lines.find? fun l => !isEmptyLine l.1).map fun l => indentOf l.1
      max least (found.getD least)
  let own := lines.takeWhile fun l => belongs indent l.1
  let rest := lines.dropWhile fun l => belongs indent l.1
  ((own.foldl (BlockText.add folded indent) {}).finish chomping, joinLines rest)

end NeutralQuery.Yaml
