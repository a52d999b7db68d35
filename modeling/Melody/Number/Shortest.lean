import Melody.Number.Double

/-!
# The shortest decimal that reads back

For a positive double, the decimal with the fewest digits that lies closer to it than to any
other double, and among those the nearest. Candidates are the two neighbours of the value on
the grids of one, two, … seventeen significant digits; all comparisons are exact.
-/

set_option autoImplicit false

namespace Melody.Number

structure Decimal where
  digits : Nat
  exponent : Int
deriving DecidableEq, Repr

def decimalLength (n : Nat) : Nat :=
  (Nat.toDigits 10 n).length

def decimalExponent (num den : Nat) : Int :=
  if den ≤ num then (decimalLength (num / den) : Int) - 1
  else
    let k := decimalLength (den / num)
    if den ≤ num * Nat.pow 10 (k - 1) then -((k - 1 : Nat) : Int) else -(k : Int)

structure Rounding where
  low : Nat
  value : Nat
  high : Nat
  den : Nat
  closed : Bool

def rounding (m : Nat) (e : Int) : Rounding :=
  let unit := Nat.pow 2 (e - 2).toNat
  let den := Nat.pow 2 (2 - e).toNat
  let below := if m = Nat.pow 2 52 && decide (-1074 < e) then 1 else 2
  ⟨(4 * m - below) * unit, 4 * m * unit, (4 * m + 2) * unit, den, m % 2 == 0⟩

def Rounding.holds (r : Rounding) (d : Nat) (g : Int) : Bool :=
  let x := d * Nat.pow 10 g.toNat * r.den
  let scale := Nat.pow 10 (-g).toNat
  if r.closed then r.low * scale ≤ x && x ≤ r.high * scale
  else r.low * scale < x && x < r.high * scale

def Rounding.onGrid (r : Rounding) (g : Int) : Option Nat :=
  let num := r.value * Nat.pow 10 (-g).toNat
  let den := r.den * Nat.pow 10 g.toNat
  let d := num / den
  let rest := num % den
  match r.holds d g, r.holds (d + 1) g with
  | true, true =>
    if 2 * rest < den then some d
    else if den < 2 * rest then some (d + 1)
    else some (if d % 2 = 0 then d else d + 1)
  | true, false => some d
  | false, true => some (d + 1)
  | false, false => none

def dropZeros : Nat → Decimal → Decimal
  | 0, d => d
  | fuel + 1, d =>
    if d.digits ≠ 0 ∧ d.digits % 10 = 0 then dropZeros fuel ⟨d.digits / 10, d.exponent + 1⟩ else d

/-- The shortest decimal of the positive double `m * 2 ^ e`. Seventeen digits always suffice. -/
def shortest (m : Nat) (e : Int) : Decimal :=
  let r := rounding m e
  let top := decimalExponent r.value r.den
  let grids := (List.range 17).map fun k : Nat => top - (k : Int)
  match grids.findSome? fun g => (r.onGrid g).map fun d => Decimal.mk d g with
  | some d => dropZeros 20 d
  | none => ⟨0, 0⟩

end Melody.Number
