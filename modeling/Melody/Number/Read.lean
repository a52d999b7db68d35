import Melody.Number.Double
import Melody.Text.Char

/-!
# Reading numbers

Integers are runs of positional digits of any script with an optional sign; single underscores
may stand between digits and blanks around the number. Decimals add a point, an exponent and
the words for infinity and for no number.
-/

set_option autoImplicit false

namespace Melody.Number

open Melody.Text

def isPadding (c : Char) : Bool :=
  -- the four separator controls are blanks, but no padding
  isBlank c && !(28 ≤ c.toNat && c.toNat ≤ 31)

def trimPadding (cs : List Char) : List Char :=
  ((cs.dropWhile isPadding).reverse.dropWhile isPadding).reverse

def readSign : List Char → Bool × List Char
  | '-' :: cs => (true, cs)
  | '+' :: cs => (false, cs)
  | cs => (false, cs)

inductive IntegerError where
  | malformed
  | tooManyDigits (count : Nat)
deriving DecidableEq, Repr

def maxIntegerDigits : Nat := 4300

/-- The digits of a run, after those that are given from the last one back, and the rest of the
text. Single underscores may stand between digits; `last` is the character before, with every
digit written `0`. -/
def digitRunAfter (before : List Nat) : Option Char → List Char → Option (List Nat × List Char)
  | last, [] => if last = some '_' then none else some (before.reverse, [])
  | last, c :: cs =>
    match digitValue? c with
    | some d => digitRunAfter (d :: before) (some '0') cs
    | none =>
      if c = '_' then
        if last = some '0' then digitRunAfter before (some '_') cs else none
      else if last = some '_' then none
      else some (before.reverse, c :: cs)

def digitRun (cs : List Char) : Option (List Nat × List Char) :=
  digitRunAfter [] none cs

def digitsValue (ds : List Nat) : Nat :=
  ds.foldl (fun n d => 10 * n + d) 0

def readInt (cs : List Char) : Except IntegerError Int :=
  let (negative, body) := readSign (trimPadding cs)
  match digitRun body with
  | none => .error .malformed
  | some (ds, rest) =>
    if ds.isEmpty then .error .malformed
    else if maxIntegerDigits < ds.length then .error (.tooManyDigits ds.length)
    else if rest.isEmpty then
      .ok (if negative then -(digitsValue ds : Int) else digitsValue ds)
    else .error .malformed

structure Written where
  mantissa : Nat
  places : Nat
  exponent : Int

def infinity (negative : Bool) : Float :=
  Float.ofBits (if negative then 0xFFF0000000000000 else 0x7FF0000000000000)

def Written.value (negative : Bool) (w : Written) : Float :=
  let e := w.exponent - w.places
  let size : Int := (Nat.log2 w.mantissa : Int)
  -- far outside the range of doubles the size alone decides
  if w.mantissa = 0 then ofRatio negative 0 1
  else if 2000 < e ∨ (0 < e ∧ 1100 < size + 3 * e) then infinity negative
  else if size + 3 * e < -1200 then ofRatio negative 0 1
  else ofRatio negative (w.mantissa * Nat.pow 10 e.toNat) (Nat.pow 10 (-e).toNat)

private def readExponent : List Char → Option Int
  | [] => some 0
  | c :: cs =>
    if c = 'e' || c = 'E' then
      let (negative, body) := readSign cs
      match digitRun body with
      | some (ds, []) =>
        if ds.isEmpty then none
        else
          let n := (digitsValue ds : Int)
          some (if negative then -n else n)
      | _ => none
    else none

private def readUnsigned (negative : Bool) (cs : List Char) : Option Float := do
  let word := String.ofList (cs.map Char.toLower)
  if word = "inf" || word = "infinity" then
    return infinity negative
  if word = "nan" then
    return Float.ofBits 0x7FF8000000000000
  let (whole, rest) ← digitRun cs
  let (fraction, rest) ←
    match rest with
    | '.' :: rest => digitRun rest
    | _ => some ([], rest)
  if whole.isEmpty && fraction.isEmpty then none
  else
    let e ← readExponent rest
    return Written.value negative ⟨digitsValue (whole ++ fraction), fraction.length, e⟩

def readFloat? (cs : List Char) : Option Float :=
  let (negative, body) := readSign (trimPadding cs)
  readUnsigned negative body

end Melody.Number
