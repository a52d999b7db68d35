import Melody.Sound.Instrument
import Melody.Sound.Quantity
import Melody.Sound.Stages

/-!
# Rendering

The samples of a note: the partials of its frequency are added, a sum that exceeds full level is
scaled down to it, and the envelope and the volume are applied.
-/

set_option autoImplicit false

namespace Melody.Sound

def sampleRate : Nat := 44100

/-- The samples in a number of seconds, rounded toward zero. A text times the rate is written that
many times, and a list stays a list. -/
def sampleCount (seconds : Value) : Except Fault Int :=
  match seconds with
  | .float x =>
    match Number.truncate? (x * sampleRate.toFloat) with
    | some n => .ok n
    | Option.none => .error (if x.isNaN then .integerOfNan else .integerOfInfinity)
  | .int n => .ok (n * sampleRate)
  | .bool b => .ok (if b then sampleRate else 0)
  | .text s => parseInt (List.replicate sampleRate s.toList).flatten
  | .list _ => .error (.notConvertible seconds.kind)
  | v => .error (.notOperands "*" v.kind "int")

def timeOf (i : Nat) : Float :=
  i.toFloat / sampleRate.toFloat

abbrev Pitch := Nat → Float

def gridPitch (n : Nat) (v : Value) : Except Fault Pitch := do
  let (factors, areNumbers) ← factorsOf n v
  if !areNumbers then throw .notNumbers
  if factors.shape ≠ [n] then throw (.shapeGrown [n] factors.shape)
  let cells := factors.cells.toArray
  return fun i => cells.getD i 0.0

/-- The pitch that a value gives to `n` samples. Waves that start from the angle need a single
number; the others also take a list with one number, or one for each sample. -/
def pitchOf (w : Waveform) (n : Nat) (v : Value) : Except Fault Pitch :=
  match w, v with
  | .sine, v | .square, v => (asDouble notFactor v).map fun f _ => f
  | _, .float _ | _, .int _ | _, .bool _ => (asDouble notFactor v).map fun f _ => f
  | _, v => gridPitch n v

def soundingPitch (w : Waveform) (partials : List Partial) (n : Nat) (v : Value) :
    Except Fault Pitch :=
  -- without partials nobody looks at the frequency
  if partials.isEmpty then .ok fun _ => 0.0 else pitchOf w n v

def addPartials (w : Waveform) (partials : List Partial) (frequency time level : Float) : Float :=
  partials.foldl (fun sum p => sum + p.amplitude * w.level frequency p.number time) level

def noteLevel (w : Waveform) (partials : List Partial) (pitch : Pitch) (i : Nat) : Float :=
  addPartials w partials (pitch i) (timeOf i) 0.0

def peak (levels : List Float) : Float :=
  levels.foldl (fun m x => if m < x.abs || x.isNaN then x.abs else m) 0.0

def quantize (level volume : Float) : Int16 :=
  let x := level * volume * 32767.0
  if x.abs < 2147483648.0 then x.toInt32.toInt16 else 0

def stagesOf (e : Envelope Value) : Except Fault Stages := do
  return ⟨← sampleCount e.attack, ← sampleCount e.decay, ← sampleCount e.release⟩

def ramps (rampOf : Float → List Float) (g : Grid Float) (k : Nat) : Grid Float :=
  ⟨k :: g.shape, (Grid.rowsOf k (g.cells.map rampOf)).flatten⟩

def sustainedOf (v : Value) : Sustained Float :=
  match v with
  | .float x => .steady ramp 0.0 1.0 x
  | v =>
    { fall := fun k => do return ramps (fun x => ramp 1.0 x k) (← rampEnds v) k
      held := heldLevels v
      fade := fun k => do return ramps (fun x => ramp x 0.0 k) (← rampEnds v) k }

def sampled (levels : List Float) (volume : Value) : Except Fault (Grid Int16) := do
  let (factors, _) ← factorsOf levels.length volume
  let spread := (Grid.row levels).spread factors.shape
  return ⟨factors.shape, List.zipWith quantize spread.cells factors.cells⟩

def render (level : Nat → Except Fault (Nat → Float)) (e : Envelope Value)
    (seconds volume : Value) : Except Fault (List Int16 × List Int16) := do
  let n ← sampleCount seconds
  let stages ← (← stagesOf e).fit n
  if n < 0 then throw .negativeSize
  let raw := (List.range n.toNat).map (← level n.toNat)
  if raw.isEmpty then throw .emptySound
  let top := peak raw
  let top := if top < 1.0 then 1.0 else top
  let gains ← stages.levels ramp 0.0 1.0 (sustainedOf e.sustain) n.toNat
  let samples ← sampled (List.zipWith (fun x gain => x / top * gain) raw gains) volume
  return samples.channels

end Melody.Sound
