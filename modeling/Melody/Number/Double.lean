/-!
# Doubles as exact rationals

A finite double is a signed integer times a power of two. `shape` takes it apart, `ofRatio`
gives the double nearest to a quotient of naturals, a tie going to the even neighbour, and
`truncate?` and `equalsInt` work on the exact value.
-/

set_option autoImplicit false

namespace Melody.Number

inductive Shape where
  | finite (negative : Bool) (mantissa : Nat) (exponent : Int)
  | infinite (negative : Bool)
  | nan
deriving DecidableEq, Repr

def shape (x : Float) : Shape :=
  let bits := x.toBits.toNat
  let negative := decide (Nat.pow 2 63 ≤ bits)
  let field : Nat := bits / Nat.pow 2 52 % 2048
  let fraction : Nat := bits % Nat.pow 2 52
  if field = 2047 then (if fraction = 0 then .infinite negative else .nan)
  else if field = 0 then .finite negative fraction (-1074)
  else .finite negative (Nat.pow 2 52 + fraction) ((field : Int) - 1075)

def roundHalfEven (num den : Nat) : Nat :=
  let q := num / den
  let r := num % den
  if 2 * r < den then q
  else if den < 2 * r then q + 1
  else if q % 2 = 0 then q else q + 1

private def infinityBits : Nat := 2047 * Nat.pow 2 52

def ratioBits (num den : Nat) : Nat :=
  if num = 0 then 0
  else
    let guess : Int := (Nat.log2 num : Int) - Nat.log2 den
    -- `num / den` lies in the binade `guess` or in the one below it
    let exact :=
      if num * Nat.pow 2 (-guess).toNat < den * Nat.pow 2 guess.toNat then guess - 1 else guess
    let e := max (exact - 52) (-1074)
    if 971 < e then infinityBits
    else
      let m := roundHalfEven (num * Nat.pow 2 (-e).toNat) (den * Nat.pow 2 e.toNat)
      -- a mantissa that rounds up to the next power of two carries into the exponent field
      if m < Nat.pow 2 52 then m else min infinityBits ((e + 1074).toNat * Nat.pow 2 52 + m)

def ofRatio (negative : Bool) (num den : Nat) : Float :=
  Float.ofBits (UInt64.ofNat (ratioBits num den + if negative then Nat.pow 2 63 else 0))

def ofInt (n : Int) : Float :=
  ofRatio (decide (n < 0)) n.natAbs 1

def ofQuotient (num den : Int) : Float :=
  ofRatio (decide (num < 0) != decide (den < 0)) num.natAbs den.natAbs

def truncate? (x : Float) : Option Int :=
  match shape x with
  | .finite negative m e =>
    let n := m * Nat.pow 2 e.toNat / Nat.pow 2 (-e).toNat
    some (if negative then -(n : Int) else n)
  | _ => none

def equalsInt (x : Float) (n : Int) : Bool :=
  match shape x with
  | .finite negative m e =>
    let num : Int := m * Nat.pow 2 e.toNat
    (if negative then -num else num) == n * Nat.pow 2 (-e).toNat
  | _ => false

end Melody.Number
