import Melody.Number.Shortest

/-!
# Writing numbers

A double is written with its shortest digits. Exponents from `-4` to `15` are written
positionally with at least one place after the point; outside that range one digit stands
before the point and the exponent has a sign and at least two digits.
-/

set_option autoImplicit false

namespace Melody.Number

structure Layout where
  leastPositional : Int
  mostPositional : Int
  exponentWidth : Nat

def Layout.standard : Layout := ⟨-4, 15, 2⟩

private def zeros (n : Nat) : String := String.ofList (List.replicate n '0')

def Decimal.write (layout : Layout) (d : Decimal) : String :=
  let text := toString d.digits
  let n := text.length
  let point : Int := n + d.exponent
  let lead := point - 1
  if layout.leastPositional ≤ lead ∧ lead ≤ layout.mostPositional then
    if point ≤ 0 then "0." ++ zeros (-point).toNat ++ text
    else if (n : Int) ≤ point then text ++ zeros (point - n).toNat ++ ".0"
    else
      let cs := text.toList
      String.ofList (cs.take point.toNat) ++ "." ++ String.ofList (cs.drop point.toNat)
  else
    let cs := text.toList
    let fraction := if n ≤ 1 then "" else "." ++ String.ofList (cs.drop 1)
    let size := toString lead.natAbs
    String.ofList (cs.take 1) ++ fraction ++ "e" ++ (if lead < 0 then "-" else "+") ++
      zeros (layout.exponentWidth - size.length) ++ size

def writeFloat (x : Float) : String :=
  match shape x with
  | .nan => "nan"
  | .infinite negative => if negative then "-inf" else "inf"
  | .finite negative m e =>
    (if negative then "-" else "") ++
      (if m = 0 then "0.0" else (shortest m e).write Layout.standard)

end Melody.Number
