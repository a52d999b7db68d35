import Melody.Fault
import Melody.Value

/-!
# Looking into values

Access to the parts of a value whose kind is not known in advance. A value of another kind than
the one expected is a fault.
-/

set_option autoImplicit false

namespace Melody.Value

def elements : Value → Except Fault (List Value)
  | .list items => .ok items
  | .text s => .ok (s.toList.map fun c => .text c.toString)
  | .record fields => .ok (fields.map fun f => .text f.1)
  | v => .error (.notIterable v.kind)

def item (v : Value) (i : Nat) : Except Fault Value :=
  match v with
  | .list items =>
    match items[i]? with
    | some w => .ok w
    | Option.none => .error .itemOutOfRange
  | .text s =>
    match s.toList[i]? with
    | some c => .ok (.text c.toString)
    | Option.none => .error .characterOutOfRange
  | .record _ => .error (.missingItem i)
  | v => .error (.notIndexed v.kind)

def count (v : Value) : Except Fault Nat :=
  match v with
  | .list items => .ok items.length
  | .text s => .ok s.length
  | .record fields => .ok fields.length
  | v => .error (.notMeasured v.kind)

def fieldOf (v : Value) (name : String) : Except Fault Value :=
  match v with
  | .record fields =>
    match fields.lookup name with
    | some w => .ok w
    | Option.none => .error (.missingField name)
  | v => .error (.notIndexed v.kind)

def hasField (v : Value) (name : String) : Bool :=
  match v with
  | .record fields => (fields.lookup name).isSome
  | _ => false

def writtenIfTrue (v : Value) : String :=
  if v.isTrue then v.written else ""

/-- The name under which a value can be looked up in a table: a text is its own name, lists and
records have none and are refused, and other values are in no table. -/
def asName (v : Value) : Except Fault (Option String) :=
  match v with
  | .text s => .ok (some s)
  | .list _ | .record _ => .error (.notHashable v.kind)
  | _ => .ok Option.none

def noteSpelling (v : Value) : Except Fault String := do
  let name ← v.fieldOf "nota"
  let accidental ← v.fieldOf "modificador"
  return name.written ++ accidental.writtenIfTrue

end Melody.Value
