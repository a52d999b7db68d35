/-!
# Grids

A grid is a box of cells with any number of axes, kept row by row. Two grids fit together if their
axes, compared from the last one, agree or one of them has a single place, which is then repeated.
-/

set_option autoImplicit false

namespace Melody.Sound

structure Grid (α : Type) where
  shape : List Nat
  cells : List α

namespace Grid

variable {α β : Type}

def row (xs : List α) : Grid α :=
  ⟨[xs.length], xs⟩

def volume (shape : List Nat) : Nat :=
  shape.foldl (· * ·) 1

private def fitFromLast : List Nat → List Nat → Option (List Nat)
  | [], b => some b
  | a, [] => some a
  | x :: a, y :: b => do
    let rest ← fitFromLast a b
    if x = y || y = 1 then some (x :: rest) else if x = 1 then some (y :: rest) else none

def fit (a b : List Nat) : Option (List Nat) :=
  (fitFromLast a.reverse b.reverse).map List.reverse

def pieces (size : Nat) : Nat → List α → List (List α)
  | 0, _ => []
  | count + 1, xs => xs.take size :: pieces size count (xs.drop size)

def spreadCells : List Nat → List Nat → List α → List α
  | d :: ds, t :: ts, xs =>
    let rows := (pieces (volume ds) d xs).map (spreadCells ds ts)
    if d = t then rows.flatten else (List.replicate t rows.flatten).flatten
  | _, _, xs => xs

def spread (shape : List Nat) (g : Grid α) : Grid α :=
  if g.shape = shape then g
  else
    let missing := List.replicate (shape.length - g.shape.length) 1
    ⟨shape, spreadCells (missing ++ g.shape) shape g.cells⟩

def rowsOf (k : Nat) (columns : List (List α)) : List (List α) :=
  columns.foldr (List.zipWith (· :: ·)) (List.replicate k [])

def turned : List Nat → List α → List α
  | d :: ds, xs => (rowsOf (volume ds) ((pieces (volume ds) d xs).map (turned ds))).flatten
  | [], xs => xs

def dropSingles : List Nat → List Nat
  | 1 :: d :: ds => dropSingles (d :: ds)
  | shape => shape

private def pairUp : List α → List (α × α)
  | a :: b :: rest => (a, b) :: pairUp rest
  | _ => []

/-- The left and the right channel of a grid whose last axis is the time. Both carry the same
levels if there are no other axes; otherwise the levels of one time, written twice, are dealt out
to the two channels in turn. -/
def channels (g : Grid α) : List α × List α :=
  match g.shape with
  | [_] => (g.cells, g.cells)
  | d :: ds =>
    let rows := (pieces (volume ds) d g.cells).map (turned ds)
    let frames := (rowsOf (volume ds) rows).flatMap fun column => pairUp (column ++ column)
    (frames.map (·.1), frames.map (·.2))
  | [] => (g.cells, g.cells)

end Grid

end Melody.Sound
