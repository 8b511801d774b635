import NeutralQuery.Error

namespace NeutralQuery

/-- The segments of a path and whether the last one is set off by the left-join marker. -/
structure FieldPath where
  segments : List String
  leftJoin : Bool
deriving DecidableEq

namespace FieldPath

def ofSegments (segments : List String) : FieldPath := ⟨segments, false⟩

def length (p : FieldPath) : Nat := p.segments.length

def terminal (p : FieldPath) : String := p.segments.getLastD ""

/-- The path without its last segment; a path of one segment has the empty parent. -/
def parent (p : FieldPath) : FieldPath := ⟨p.segments.dropLast, false⟩

def take (p : FieldPath) (n : Nat) : FieldPath := ⟨p.segments.take n, false⟩

def isEmpty (p : FieldPath) : Bool := p.segments.isEmpty

/-- The place of the field: its segments joined by dots. -/
def location (p : FieldPath) : String := Text.join '.' p.segments

def raw (p : FieldPath) : String :=
  if p.leftJoin then p.parent.location ++ "<" ++ p.terminal else p.location

def checkSegments (raw : String) (leftJoin : Bool) (segments : List String) : Outcome FieldPath :=
  if segments.any (· == "") then .error (.unresolvable raw .emptySegment)
  else .ok ⟨segments, leftJoin⟩

def parse (raw : String) : Outcome FieldPath :=
  if raw = "" then .error (.malformed .emptyPath)
  else
    match Text.cutAt '<' raw.toList with
    | none => checkSegments raw false (Text.split '.' raw)
    | some (head, terminal) =>
      if terminal.contains '<' then .error (.unresolvable raw .manyMarkers)
      else if terminal.contains '.' then .error (.unresolvable raw .markerBeforeDot)
      else if head.isEmpty || terminal.isEmpty then .error (.unresolvable raw .markerAtEnd)
      else
        checkSegments raw true
          ((Text.splitChars '.' head).map String.ofList ++ [String.ofList terminal])

end FieldPath

end NeutralQuery
