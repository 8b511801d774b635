import NeutralQuery.Error
import NeutralQuery.Operator.Basic

namespace NeutralQuery

/-- What an operator says of two values; the verdict stays open when one of them is null. -/
abbrev Registry := Operator → Value → Value → Outcome (Option Bool)

namespace Registry

/-- The verdict of a comparison operator on an order. -/
def byOrder (o : Operator) (c : Ordering) : Option Bool :=
  match o with
  | .equal => some (c == .eq)
  | .notEqual => some (c != .eq)
  | .greaterThan => some (c == .gt)
  | .greaterThanOrEqual => some (c != .lt)
  | .lessThan => some (c == .lt)
  | .lessThanOrEqual => some (c != .gt)
  | _ => none

def onFloats (o : Operator) (a b : Float) : Option Bool :=
  match o with
  | .equal => some (a == b)
  | .notEqual => some (a != b)
  | .greaterThan => some (decide (b < a))
  | .greaterThanOrEqual => some (decide (b ≤ a))
  | .lessThan => some (decide (a < b))
  | .lessThanOrEqual => some (decide (a ≤ b))
  | _ => none

def onBools (o : Operator) (a b : Bool) : Option Bool :=
  match o with
  | .equal => some (a == b)
  | .notEqual => some (a != b)
  | _ => none

def onTexts (o : Operator) (a b : String) : Option Bool :=
  match o with
  | .contain => some (Text.contains (Text.lower a) (Text.lower b))
  | .doesNotContain => some (!Text.contains (Text.lower a) (Text.lower b))
  | .startWith => some (Text.startsWith (Text.lower a) (Text.lower b))
  | .endWith => some (Text.endsWith (Text.lower a) (Text.lower b))
  | o => byOrder o (Ord.compare a b)

def onBytes (o : Operator) (a b : List UInt8) : Option Bool :=
  match o with
  | .contain | .doesNotContain | .startWith | .endWith =>
    onTexts o (Text.ofBytes a) (Text.ofBytes b)
  | o => byOrder o (compareBytes a b)

def isExact : IntKind → Bool
  | .int | .int32 | .int64 => true
  | _ => false

def asFloat? : Value → Option Float
  | .int _ n => some (Decimal.doubleOfInt n)
  | .float32 x => some x.toFloat
  | .float x => some x
  | _ => none

def textBytes? : Value → Option (List UInt8)
  | .text s => some (Text.utf8 s)
  | .rawText b => some b
  | _ => none

def onOthers (o : Operator) (a b : Value) : Option Bool :=
  match asFloat? a, asFloat? b with
  | some x, some y => onFloats o x y
  | _, _ =>
    match textBytes? a, textBytes? b with
    | some x, some y => onBytes o x y
    | _, _ => none

/-- The verdict of an operator on two present values; `none` where it is not defined on them. -/
def verdict? (o : Operator) : Value → Value → Option Bool
  | .bool a, .bool b => onBools o a b
  | .int k a, .int l b =>
    if k = l ∧ isExact k then byOrder o (Ord.compare a b)
    else onFloats o (Decimal.doubleOfInt a) (Decimal.doubleOfInt b)
  | .float a, .float b => onFloats o a b
  | .text a, .text b => onTexts o a b
  | .time a, .time b => byOrder o (a.compare b)
  | .duration a, .duration b => byOrder o (Ord.compare a.nanos b.nanos)
  | .ulid a, .ulid b => byOrder o (compareBytes a.bytes b.bytes)
  | .uuid a, .uuid b => byOrder o (compareBytes a.bytes b.bytes)
  | a, b => onOthers o a b

def supports (o : Operator) (a b : Value) : Bool := (verdict? o a b).isSome

def standard : Registry := fun o a b =>
  if a.isNull || b.isNull then .ok none
  else
    match verdict? o a b with
    | some verdict => .ok (some verdict)
    | none => .error (.undefinedOn o.token a b)

def order (r : Registry) (a b : Value) : Outcome Ordering := do
  if (← r .lessThan a b) == some true then return .lt
  if (← r .equal a b) == some true then return .eq
  return .gt

end Registry

end NeutralQuery
