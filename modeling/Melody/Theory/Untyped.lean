import Melody.Theory.Chord
import Melody.Theory.Duration
import Melody.Value.Access

/-!
# Music theory on values

Names, accidentals and key numbers that come from a running program are values of any kind. A name
has to be a text; an accidental that counts as false is none.
-/

set_option autoImplicit false

namespace Melody.Theory

def textName (v : Value) : Except Fault String :=
  match v with
  | .text s => .ok s
  | v => .error (.notText v.kind "lower")

def noteFrequency (note accidental : Value) : Except Fault Float := do
  let name ← textName note
  match accidental with
  | .text sign => frequency name (some sign)
  | v =>
    if v.isTrue then
      let _ ← naturalFrequency name
      let _ ← v.asName
      .error (.unknownAccidental v.written)
    else frequency name none

def durationSeconds (duration tempo : Value) : Except Fault Float := do
  seconds (← textName duration) tempo

def chordOn (root kind accidental : Value) : Except Fault (List Float) := do
  chordAbove (← noteFrequency root accidental) (← textName kind)

def noteKey (note accidental : Value) : Except Fault Int := do
  let name ← textName note
  match accidental with
  | .text sign => keyNumber name (some sign)
  | _ => keyNumber name none

def keyPitch (key : Value) : Except Fault Float :=
  match key with
  | .float x => fractionalKeyFrequency x
  | v =>
    match v.asInt? with
    | some n => keyFrequency n
    | none => .error (.notOperands "-" v.kind "int")

end Melody.Theory
