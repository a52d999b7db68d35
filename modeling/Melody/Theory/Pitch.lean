import Melody.Fault

/-!
# Pitches

A note name with an optional octave stands for a frequency in hertz. Octaves one to seven of the
seven syllables are tabulated; any other octave doubles or halves the frequency of the middle
one. An accidental multiplies the frequency by a rounded semitone ratio.
-/

set_option autoImplicit false

namespace Melody.Theory

def noteFrequencies : List (String × Float) :=
  [("do", 261.63), ("re", 293.66), ("mi", 329.63), ("fa", 349.23), ("sol", 392.00),
   ("la", 440.00), ("si", 493.88),
   ("c", 261.63), ("d", 293.66), ("e", 329.63), ("f", 349.23), ("g", 392.00), ("a", 440.00),
   ("b", 493.88),
   ("do1", 32.70), ("re1", 36.71), ("mi1", 41.20), ("fa1", 43.65), ("sol1", 49.00),
   ("la1", 55.00), ("si1", 61.74),
   ("do2", 65.41), ("re2", 73.42), ("mi2", 82.41), ("fa2", 87.31), ("sol2", 98.00),
   ("la2", 110.00), ("si2", 123.47),
   ("do3", 130.81), ("re3", 146.83), ("mi3", 164.81), ("fa3", 174.61), ("sol3", 196.00),
   ("la3", 220.00), ("si3", 246.94),
   ("do4", 261.63), ("re4", 293.66), ("mi4", 329.63), ("fa4", 349.23), ("sol4", 392.00),
   ("la4", 440.00), ("si4", 493.88),
   ("do5", 523.25), ("re5", 587.33), ("mi5", 659.25), ("fa5", 698.46), ("sol5", 783.99),
   ("la5", 880.00), ("si5", 987.77),
   ("do6", 1046.50), ("re6", 1174.66), ("mi6", 1318.51), ("fa6", 1396.91), ("sol6", 1567.98),
   ("la6", 1760.00), ("si6", 1975.53),
   ("do7", 2093.00), ("re7", 2349.32), ("mi7", 2637.02), ("fa7", 2793.83), ("sol7", 3135.96),
   ("la7", 3520.00), ("si7", 3951.07)]

def middleOctave : Int := 4

def accidentalFactor? : String → Option Float
  | "#" => some 1.059463
  | "b" => some 0.943874
  | _ => none

def moveOctaves (base : Float) (octaves : Int) : Except Fault Float :=
  if octaves < 0 then .ok (base * Number.ofRatio false 1 (Nat.pow 2 octaves.natAbs))
  else if 1023 < octaves then .error .integerOverflow
  else .ok (base * Number.ofRatio false (Nat.pow 2 octaves.natAbs) 1)

def naturalFrequency (note : String) : Except Fault Float :=
  let name := Text.lower note
  match noteFrequencies.lookup name with
  | some f => .ok f
  | none => do
    let base := String.ofList (name.toList.filter fun c => !Text.isDigit c)
    let digits := name.toList.filter Text.isDigit
    match digits, noteFrequencies.lookup base with
    | _ :: _, some f => moveOctaves f ((← parseInt digits) - middleOctave)
    | _, _ => .error (.unknownNote note)

def frequency (note : String) (accidental : Option String) : Except Fault Float := do
  let base ← naturalFrequency note
  match accidental with
  | none | some "" => return base
  | some sign =>
    match accidentalFactor? sign with
    | some factor => return base * factor
    | none => .error (.unknownAccidental sign)

def semitones? : String → Option Int
  | "do" | "c" => some 0
  | "re" | "d" => some 2
  | "mi" | "e" => some 4
  | "fa" | "f" => some 5
  | "sol" | "g" => some 7
  | "la" | "a" => some 9
  | "si" | "b" => some 11
  | _ => none

/-- The key number of a note, counted in semitones. A name that is unknown counts as the first
one, and without an octave the number stays within the octave. -/
def keyNumber (note : String) (accidental : Option String) : Except Fault Int := do
  let name := (Text.lower note).toList
  let digits := name.filter Text.isDigit
  let base := (semitones? (String.ofList (name.filter fun c => !Text.isDigit c))).getD 0
  let step : Int :=
    match accidental with
    | some "#" => 1
    | some "b" => -1
    | _ => 0
  if digits.isEmpty then return base + step
  else return ((← parseInt digits) + 1) * 12 + (base + step)

def powerOfTwo (x : Float) : Except Fault Float :=
  let y := Float.pow 2.0 x
  if y.isInf && x.isFinite then .error .powerOverflow else .ok y

def referenceKey : Int := 69

def keyFrequency (key : Int) : Except Fault Float := do
  let steps := key - referenceKey
  let octaves := Number.ofRatio (decide (steps < 0)) steps.natAbs 12
  if octaves.isInf then .error .quotientOverflow
  else return 440.0 * (← powerOfTwo octaves)

def fractionalKeyFrequency (key : Float) : Except Fault Float := do
  return 440.0 * (← powerOfTwo ((key - 69.0) / 12.0))

end Melody.Theory
