import NeutralQuery.Yaml.Node
import NeutralQuery.Yaml.Scalars

namespace NeutralQuery.Yaml

structure State where
  rest : List Char
  column : Nat := 0
  /-- Nothing but blanks stands before this place in its line. -/
  fresh : Bool := true
  anchors : List (String × Node) := []

abbrev Reader := StateT State Option

/-- Skips blanks, breaks and comments; tabs do not indent lines outside brackets. -/
def skipFrom (flow : Bool) (s : State) (comment : Bool) (column : Nat) (fresh : Bool) :
    List Char → State
  | [] => { s with rest := [], column, fresh }
  | c :: cs =>
    if c = '\n' then skipFrom flow s false 0 true cs
    else if comment then skipFrom flow s true (column + 1) fresh cs
    else if c = ' ' || c = '\t' && (flow || !fresh) then
      skipFrom flow s false (column + 1) fresh cs
    else if c = '#' then skipFrom flow s true (column + 1) fresh cs
    else { s with rest := c :: cs, column, fresh }

def skip (flow : Bool) : Reader Unit :=
  modify fun s => skipFrom flow s false s.column s.fresh s.rest

def advance (n : Nat) : Reader Unit :=
  modify fun s => { s with rest := s.rest.drop n, column := s.column + n, fresh := false }

def moveTo (column : Nat) (rest : List Char) : Reader Unit :=
  modify fun s => { s with rest, column, fresh := false }

/-- The document ends here. -/
def State.ended (s : State) : Bool := s.rest.isEmpty || isMarker s.column s.rest

/-- A sign that is followed by a blank. -/
def State.sign (s : State) (c : Char) : Bool :=
  match s.rest with
  | d :: rest => d = c && blankNext rest
  | [] => false

structure Properties where
  tag : String := ""
  anchor : String := ""

def Properties.isEmpty (p : Properties) : Bool := p.tag = "" && p.anchor = ""

def isWordEnd (c : Char) : Bool := isBlankOrBreak c || isFlowMark c

def takeWord : Reader String := do
  let s ← get
  let word := s.rest.takeWhile fun c => !isWordEnd c
  advance word.length
  return String.ofList word

def shortTag (tag : String) : String :=
  match Text.dropStart? tag "!<tag:yaml.org,2002:" with
  | some rest => "!!" ++ (Text.dropEnd? rest ">").getD rest
  | none => tag

def skipInLine : Reader Unit := do
  let s ← get
  advance (s.rest.takeWhile isBlank).length

/-- A tag and an anchor, in either order. -/
def properties : Nat → Properties → Reader Properties
  | 0, p => return p
  | n + 1, p => do
    match (← get).rest with
    | '!' :: _ =>
      let tag := shortTag (← takeWord)
      skipInLine
      properties n { p with tag }
    | '&' :: _ =>
      advance 1
      let anchor ← takeWord
      skipInLine
      properties n { p with anchor }
    | _ => return p

def withProperties (p : Properties) (n : Node) : Reader Node := do
  let n := match n with
    | .scalar "" isPlain s => if p.tag = "" then n else .scalar p.tag isPlain s
    | n => n
  if p.anchor ≠ "" then modify fun s => { s with anchors := (p.anchor, n) :: s.anchors }
  return n

def aliased : Reader Node := do
  advance 1
  let name ← takeWord
  match ((← get).anchors.find? fun a => a.1 == name).map (·.2) with
  | some n => return n
  | none => failure

def quotedBy (read : List Char → Option (List Char × List Char)) : Reader Node := do
  let s ← get
  match read (s.rest.drop 1) with
  | none => failure
  | some (text, rest) =>
    moveTo (s.column + 1) rest
    return .scalar "" false (String.ofList text)

def doubleNode : Reader Node := quotedBy (doubleQuoted .none)

def singleNode : Reader Node := quotedBy (singleQuoted .none)

def plainNode (e : Extent) : Reader Node := do
  let s ← get
  if startsPlain e.flow s.rest then
    let (text, column, rest) := plainFrom e .none (s.column, s.rest) s.column s.rest
    moveTo column rest
    return .scalar "" true (String.ofList text)
  else failure

def blockNodeOf (parent : Int) : Reader Node := do
  let s ← get
  let folded := s.rest.head? = some '>'
  let header := (s.rest.drop 1).takeWhile (· ≠ '\n')
  let marks := header.takeWhile fun c => !isBlank c
  let comment := (header.dropWhile fun c => !isBlank c).dropWhile isBlank
  let digits := marks.filter fun c => c ≠ '+' && c ≠ '-'
  if marks.length ≤ 2 && digits.length ≤ 1 && (marks.length - digits.length) ≤ 1 &&
      digits.all (fun c => Text.isDigit c && c ≠ '0') &&
      (comment.isEmpty || comment.head? = some '#') then
    let (chomping, indent) := blockMarks marks
    let body := (s.rest.dropWhile (· ≠ '\n')).drop 1
    let (text, rest) := blockScalar folded chomping indent parent body
    modify fun s => { s with rest, column := 0, fresh := true }
    return .scalar "" false (String.ofList text)
  else failure

def mappingOf (entries : List (Node × Node)) : Reader Node :=
  match mapping? entries with
  | some n => return n
  | none => failure

mutual

def flowNode : Nat → Reader Node
  | 0 => failure
  | fuel + 1 => do
    skip true
    let p ← properties 2 {}
    skip true
    let n ← match (← get).rest with
      | '[' :: _ => do
        advance 1
        Node.sequence <$> flowItems fuel
      | '\x7b' :: _ => do
        advance 1
        mappingOf (← flowEntries fuel)
      | '*' :: _ => aliased
      | '"' :: _ => doubleNode
      | '\'' :: _ => singleNode
      | c :: _ =>
        if !p.isEmpty && (isFlowMark c || c = ':') then pure nothing
        else plainNode ⟨true, false, 0⟩
      | [] => failure
    withProperties p n

def flowValue : Nat → Reader Node
  | 0 => failure
  | fuel + 1 => do
    skip true
    match (← get).rest with
    | c :: _ => if c = ',' || c = ']' || c = '\x7d' then return nothing else flowNode fuel
    | [] => failure

def flowItems : Nat → Reader (List Node)
  | 0 => failure
  | fuel + 1 => do
    skip true
    match (← get).rest with
    | ']' :: _ => do
      advance 1
      return []
    | _ => do
      if (← get).sign '?' then advance 1
      let n ← flowNode fuel
      skip true
      let n ← match (← get).rest with
        | ':' :: _ => do
          advance 1
          let v ← flowValue fuel
          pure (Node.mapping [(n, v)])
        | _ => pure n
      skip true
      match (← get).rest with
      | ',' :: _ => do
        advance 1
        return n :: (← flowItems fuel)
      | ']' :: _ => do
        advance 1
        return [n]
      | _ => failure

def flowEntries : Nat → Reader (List (Node × Node))
  | 0 => failure
  | fuel + 1 => do
    skip true
    match (← get).rest with
    | '\x7d' :: _ => do
      advance 1
      return []
    | _ => do
      if (← get).sign '?' then advance 1
      let key ← flowNode fuel
      skip true
      let v ← match (← get).rest with
        | ':' :: _ => do
          advance 1
          flowValue fuel
        | _ => pure nothing
      skip true
      match (← get).rest with
      | ',' :: _ => do
        advance 1
        return (key, v) :: (← flowEntries fuel)
      | '\x7d' :: _ => do
        advance 1
        return [(key, v)]
      | _ => failure

end

def implicitKey : Reader Node := do
  let start ← get
  let p ← properties 2 {}
  let n ← match (← get).rest with
    | '*' :: _ => aliased
    | '"' :: _ => doubleNode
    | '\'' :: _ => singleNode
    | _ => plainNode ⟨false, true, 0⟩
  let stop ← get
  if (start.rest.take (start.rest.length - stop.rest.length)).contains '\n' then failure
  skipInLine
  if (← get).sign ':' then
    advance 1
    withProperties p n
  else failure

def State.startsKey (s : State) : Bool := (implicitKey s).isSome

/-- Whether what comes next belongs to an entry of the collection at a column. A sequence may stand
in the column of the key that it belongs to. -/
def State.isInside (s : State) (parent : Int) (sameColumn : Bool) : Bool :=
  !s.ended && (!s.fresh || decide (parent < (s.column : Int)) ||
    sameColumn && decide ((s.column : Int) = parent) && s.sign '-')

mutual

/-- The node of an entry; block collections may begin in the same line if `compact`. -/
def blockNode : Nat → Int → Bool → Bool → Reader Node
  | 0, _, _, _ => failure
  | fuel + 1, parent, sameColumn, compact => do
    skip false
    let s ← get
    if !s.isInside parent sameColumn then return nothing
    else if (compact || s.fresh) && (s.sign '-' || s.sign '?' || s.startsKey) then
      blockCollection fuel
    else
      let p ← properties 2 {}
      if p.isEmpty then blockLeaf fuel parent
      else
        skip false
        let s ← get
        if !s.isInside parent sameColumn then withProperties p nothing
        else
          let n ← if s.fresh && (s.sign '-' || s.sign '?' || s.startsKey) then blockCollection fuel
            else blockLeaf fuel parent
          withProperties p n

def blockLeaf : Nat → Int → Reader Node
  | 0, _ => failure
  | fuel + 1, parent => do
    match (← get).rest with
    | '*' :: _ => aliased
    | '|' :: _ => blockNodeOf parent
    | '>' :: _ => blockNodeOf parent
    | '[' :: _ => flowNode fuel
    | '\x7b' :: _ => flowNode fuel
    | '"' :: _ => doubleNode
    | '\'' :: _ => singleNode
    | _ => plainNode ⟨false, false, (parent + 1).toNat⟩

/-- A sequence or a mapping whose entries begin in this column. -/
def blockCollection : Nat → Reader Node
  | 0 => failure
  | fuel + 1 => do
    let s ← get
    if s.sign '-' then return .sequence (← blockItems fuel s.column)
    else mappingOf (← blockEntries fuel s.column)

def blockItems : Nat → Nat → Reader (List Node)
  | 0, _ => failure
  | fuel + 1, column => do
    advance 1
    let n ← blockNode fuel column false true
    skip false
    let s ← get
    if !s.ended && s.fresh && s.column = column && s.sign '-' then
      return n :: (← blockItems fuel column)
    else if s.ended || s.fresh && decide (s.column ≤ column) then return [n]
    else failure

def blockEntries : Nat → Nat → Reader (List (Node × Node))
  | 0, _ => failure
  | fuel + 1, column => do
    let (key, v) ← if (← get).sign '?' then do
        advance 1
        let key ← blockNode fuel column false true
        skip false
        let s ← get
        if !s.ended && s.fresh && s.column = column && s.sign ':' then
          advance 1
          pure (key, ← blockNode fuel column true true)
        else pure (key, nothing)
      else do
        let key ← implicitKey
        pure (key, ← blockNode fuel column true false)
    skip false
    let s ← get
    if s.ended || s.fresh && decide (s.column < column) then return [(key, v)]
    else if s.fresh && s.column = column then return (key, v) :: (← blockEntries fuel column)
    else failure

end

/-- Skips directives, which stand in lines of their own before the document. -/
def directives : Nat → Reader Unit
  | 0 => return ()
  | n + 1 => do
    skip false
    let s ← get
    if s.column = 0 && s.rest.head? = some '%' then
      modify fun s => { s with rest := s.rest.dropWhile (· ≠ '\n') }
      directives n

/-- The first document of a text, or none where there is only white space. -/
def document (fuel : Nat) : Reader (Option Node) := do
  directives fuel
  let s ← get
  if s.rest.isEmpty then return none
  else if isMarker s.column s.rest then
    if s.rest.head? = some '-' then
      advance 3
      return some (← blockNode fuel (-1) false false)
    else return none
  else return some (← blockNode fuel (-1) false true)

def normalizeBreaks : List Char → List Char
  | [] => []
  | '\r' :: '\n' :: rest => '\n' :: normalizeBreaks rest
  | '\r' :: rest => '\n' :: normalizeBreaks rest
  | c :: rest => c :: normalizeBreaks rest

def isAllowed (c : Char) : Bool :=
  let n := c.toNat
  c = '\n' || c = '\t' || (decide (0x20 ≤ n) && decide (n < 0x7f)) || n = 0x85 || decide (0xa0 ≤ n)

inductive Document where
  | empty
  | malformed
  | tree (n : Node)

def read (s : String) : Document :=
  let cs := normalizeBreaks s.toList
  let cs := if cs.head? = some (Char.ofNat 0xfeff) then cs.tail else cs
  if !cs.all isAllowed then .malformed
  else
    match document (8 * (cs.length + 2)) { rest := cs } with
    | none => .malformed
    | some (none, _) => .empty
    | some (some n, _) => .tree n

end NeutralQuery.Yaml
