import Melody.Fault
import Melody.Sound.Grid

/-!
# The stages of a note in samples

The envelope of a note is laid out sample by sample. Stages that are longer than the note are
reduced in proportion. Then attack, decay, sustained level and release are written one after
another into a list of full levels; `assign` replaces a stretch of a list, whose ends may be
counted from the end of the list.
-/

set_option autoImplicit false

namespace Melody.Sound

variable {α : Type}

def place (n : Nat) (i : Int) : Nat :=
  if i < 0 then (i + n).toNat else min n i.toNat

/-- The items from one place to another are replaced by the cells of a grid with one axis, apart
from leading ones with a single place. A single cell fills the stretch; otherwise the lengths must
agree. -/
def assign (start stop : Int) (new : Grid α) (old : List α) : Except Fault (List α) :=
  let first := place old.length start
  let last := max first (place old.length stop)
  let wanted := last - first
  match Grid.dropSingles new.shape with
  | [k] =>
    if k = wanted then .ok (old.take first ++ new.cells ++ old.drop last)
    else
      match new.cells with
      | [item] => .ok (old.take first ++ List.replicate wanted item ++ old.drop last)
      | _ => .error (.sizeMismatch [k] [wanted])
  | shape => .error (.sizeMismatch shape [wanted])

structure Sustained (α : Type) where
  fall : Nat → Except Fault (Grid α)
  held : Except Fault (Grid α)
  fade : Nat → Except Fault (Grid α)

def Sustained.steady (ramp : α → α → Nat → List α) (zero one level : α) : Sustained α :=
  { fall := fun k => .ok (.row (ramp one level k))
    held := .ok (.row [level])
    fade := fun k => .ok (.row (ramp level zero k)) }

structure Stages where
  attack : Int
  decay : Int
  release : Int
deriving DecidableEq, Repr

namespace Stages

def total (s : Stages) : Int :=
  s.attack + s.decay + s.release

def map (f : Int → Int) (s : Stages) : Stages :=
  ⟨f s.attack, f s.decay, f s.release⟩

def fitBy (reduce : Int → Int) (n : Int) (s : Stages) : Stages :=
  if n < s.total then s.map reduce else s

def scale (ratio : Float) (length : Int) : Int :=
  (Number.truncate? (Number.ofInt length * ratio)).getD 0

def exceedsDoubles (s : Stages) : Bool :=
  [s.attack, s.decay, s.release].any fun length => (Number.ofInt length).isInf

def fit (n : Int) (s : Stages) : Except Fault Stages :=
  let ratio := Number.ofQuotient n s.total
  if n < s.total then
    if s.total = 0 then .error .integerDivisionByZero
    else if ratio.isInf then .error .quotientOverflow
    else if s.exceedsDoubles then .error .integerOverflow
    else .ok (s.fitBy (scale ratio) n)
  else .ok s

def write (start length : Int) (levels : Except Fault (Grid α)) (old : List α) :
    Except Fault (List α) := do
  if 0 < length then assign start (start + length) (← levels) old else .ok old

def levels (ramp : α → α → Nat → List α) (zero one : α) (sustained : Sustained α) (n : Nat)
    (s : Stages) : Except Fault (List α) := do
  let rest := (n : Int) - s.total
  let xs := List.replicate n one
  let xs ← write 0 s.attack (.ok (.row (ramp zero one s.attack.toNat))) xs
  let xs ← write s.attack s.decay (sustained.fall s.decay.toNat) xs
  let xs ← write (s.attack + s.decay) rest sustained.held xs
  if 0 < s.release then assign (-s.release) n (← sustained.fade s.release.toNat) xs else .ok xs

end Stages

def ramp (first last : Float) (n : Nat) : List Float :=
  if n ≤ 1 then List.replicate n first
  else
    let gaps := (n - 1).toFloat
    let step := (last - first) / gaps
    let inner := (List.range (n - 1)).map fun i =>
      if step == 0.0 then i.toFloat / gaps * (last - first) + first else i.toFloat * step + first
    inner ++ [last]

end Melody.Sound
