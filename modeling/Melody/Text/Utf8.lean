import Melody.Text.Quoted

/-!
# Reading bytes as text

Files are sequences of bytes in UTF-8. A machine walks them one at a time and owes the bytes
that complete a character. A sequence that cannot be completed is reported with its place.
Line ends are read in all three common forms.
-/

set_option autoImplicit false

namespace Melody.Text.Utf8

inductive Reason where
  | invalidStart
  | invalidContinuation
  | unexpectedEnd
deriving DecidableEq, Repr

def Reason.text : Reason → String
  | invalidStart => "invalid start byte"
  | invalidContinuation => "invalid continuation byte"
  | unexpectedEnd => "unexpected end of data"

structure Malformed where
  place : Nat
  size : Nat
  first : UInt8
  reason : Reason
deriving DecidableEq, Repr

def Malformed.message (m : Malformed) : String :=
  let place := m.place
  let last := m.place + m.size - 1
  let reason := m.reason.text
  if m.size = 1 then
    let byte := String.ofList (Quoted.hexDigits 2 m.first.toNat)
    s!"'utf-8' codec can't decode byte 0x{byte} in position {place}: {reason}"
  else s!"'utf-8' codec can't decode bytes in position {place}-{last}: {reason}"

/-- A character under way: how many bytes it owes, the bits so far, the range of the next byte,
the bytes read and the first of them. -/
structure Pending where
  owed : Nat
  bits : Nat
  low : Nat
  high : Nat
  size : Nat
  first : UInt8

def start? (b : UInt8) : Option Pending :=
  let n := b.toNat
  if 0xC2 ≤ n ∧ n ≤ 0xDF then some ⟨1, n - 0xC0, 0x80, 0xBF, 1, b⟩
  else if n = 0xE0 then some ⟨2, 0, 0xA0, 0xBF, 1, b⟩
  else if n = 0xED then some ⟨2, 0xD, 0x80, 0x9F, 1, b⟩
  else if 0xE1 ≤ n ∧ n ≤ 0xEF then some ⟨2, n - 0xE0, 0x80, 0xBF, 1, b⟩
  else if n = 0xF0 then some ⟨3, 0, 0x90, 0xBF, 1, b⟩
  else if 0xF1 ≤ n ∧ n ≤ 0xF3 then some ⟨3, n - 0xF0, 0x80, 0xBF, 1, b⟩
  else if n = 0xF4 then some ⟨3, 4, 0x80, 0x8F, 1, b⟩
  else none

def decodeFrom : Nat → Option Pending → List UInt8 → Except Malformed (List Char)
  | _, none, [] => .ok []
  | place, some p, [] => .error ⟨place - p.size, p.size, p.first, .unexpectedEnd⟩
  | place, none, b :: rest =>
    if b < 0x80 then (decodeFrom (place + 1) none rest).map (Char.ofNat b.toNat :: ·)
    else
      match start? b with
      | none => .error ⟨place, 1, b, .invalidStart⟩
      | some p => decodeFrom (place + 1) (some p) rest
  | place, some p, b :: rest =>
    if p.low ≤ b.toNat ∧ b.toNat ≤ p.high then
      let bits := p.bits * 64 + (b.toNat - 0x80)
      if p.owed ≤ 1 then (decodeFrom (place + 1) none rest).map (Char.ofNat bits :: ·)
      else decodeFrom (place + 1) (some ⟨p.owed - 1, bits, 0x80, 0xBF, p.size + 1, p.first⟩) rest
    else .error ⟨place - p.size, p.size, p.first, .invalidContinuation⟩

def decode (bytes : List UInt8) : Except Malformed (List Char) :=
  decodeFrom 0 none bytes

end Melody.Text.Utf8

namespace Melody.Text

def unifyLineEnds : List Char → List Char
  | [] => []
  | '\r' :: '\n' :: cs => '\n' :: unifyLineEnds cs
  | '\r' :: cs => '\n' :: unifyLineEnds cs
  | c :: cs => c :: unifyLineEnds cs

end Melody.Text
