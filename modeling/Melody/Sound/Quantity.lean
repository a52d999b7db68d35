import Melody.Fault
import Melody.Sound.Grid
import Melody.Value

/-!
# Quantities

Where a number is expected in front of a row of samples, a value of any kind can stand. Lists,
also nested ones, are grids, which have to be regular; what their cells are decides whether the
product exists.
-/

set_option autoImplicit false

namespace Melody.Sound

def integerDouble (n : Int) : Except Fault Float :=
  let x := Number.ofInt n
  if x.isInf then .error .integerOverflow else .ok x

def asDouble (otherwise : Value → Fault) (v : Value) : Except Fault Float :=
  match v with
  | .float x => .ok x
  | v =>
    match v.asInt? with
    | some n => integerDouble n
    | Option.none => .error (otherwise v)

def commonAxes : List Nat → List Nat → List Nat
  | x :: a, y :: b => if x = y then x :: commonAxes a b else []
  | _, _ => []

mutual
def layout : Value → List Nat × Bool
  | .list [] => ([0], true)
  | .list (v :: vs) =>
    let first := layout v
    let rest := layoutAll vs
    ((vs.length + 1) :: rest.foldl (fun axes l => commonAxes axes l.1) first.1,
      first.2 && rest.all fun l => l.2 && l.1 == first.1)
  | _ => ([], true)

def layoutAll : List Value → List (List Nat × Bool)
  | [] => []
  | v :: vs => layout v :: layoutAll vs
end

mutual
def leaves : Value → List Value
  | .list items => leavesAll items
  | v => [v]

def leavesAll : List Value → List Value
  | [] => []
  | v :: vs => leaves v ++ leavesAll vs
end

def gridOf (v : Value) : Except Fault (Grid Value) :=
  let (shape, regular) := layout v
  if regular then .ok ⟨shape, leaves v⟩ else .error (.irregular shape)

inductive CellType where
  | number
  | text (width : Nat)
  | thing
deriving DecidableEq, Repr

def isThing : Value → Bool
  | .none | .record _ => true
  | .int n => n < -(Nat.pow 2 63 : Int) || (Nat.pow 2 64 : Int) ≤ n
  | _ => false

def textWidth : Value → Nat
  | .text s => s.length
  | .bool _ => 5
  | .int n => if (Nat.pow 2 63 : Int) ≤ n then 20 else 21
  | .float _ => 32
  | _ => 0

def isText : Value → Bool
  | .text _ => true
  | _ => false

def cellType (cells : List Value) : CellType :=
  if cells.any isThing then .thing
  else if cells.any isText then .text (cells.foldl (fun w v => max w (textWidth v)) 1)
  else .number

def textType (width : Nat) : String :=
  s!"<U{width}"

def numberType : String := "float64"

def notFactor (v : Value) : Fault :=
  match v with
  | .text _ | .list _ => .notRepeated
  | v => .notOperands "*" "float" v.kind

def notMultiple (v : Value) : Fault :=
  match v with
  | .text _ | .list _ => .notRepeated
  | v => .notOperands "*" v.kind "float"

def factorsOf (n : Nat) (v : Value) : Except Fault (Grid Float × Bool) := do
  let g ← gridOf v
  let kind := cellType g.cells
  if let .text width := kind then throw (.noProduct numberType (textType width))
  match Grid.fit [n] g.shape with
  | none => throw (.shapesApart [n] g.shape)
  | some shape =>
    if Grid.volume shape = 0 then return (⟨shape, []⟩, kind = .number)
    let factors ← g.cells.mapM (asDouble notFactor)
    return (Grid.spread shape ⟨g.shape, factors⟩, kind = .number)

def rampEnds (v : Value) : Except Fault (Grid Float) := do
  let g ← gridOf v
  if let .text width := cellType g.cells then throw (.noProduct (textType width) numberType)
  return ⟨g.shape, ← g.cells.mapM (asDouble notMultiple)⟩

def heldLevel (v : Value) : Except Fault Float :=
  match v with
  | .text s => parseFloat s.toList
  | v => asDouble (fun v => .notDecimal v.kind) v

def isList : Value → Bool
  | .list _ => true
  | _ => false

def heldLevels (v : Value) : Except Fault (Grid Float) := do
  match v with
  | .list items =>
    if items.any isList then throw .tooManyAxes
    return .row (← items.mapM heldLevel)
  | v => return .row [← heldLevel v]

end Melody.Sound
