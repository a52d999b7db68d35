import Melody.Sound.Render

/-!
# Chords

Frequencies that sound together. The samples are a row, and every partial of every frequency is a
row that is added to it. The chord lays out its stages and its envelope by itself, from the seconds
of the stages to the stretches that are written one after another.
-/

set_option autoImplicit false

namespace Melody.Sound.Chord

def addPartial (w : Waveform) (n : Nat) (frequency : Value) (samples : List Float) (p : Partial) :
    Except Fault (List Float) := do
  let pitch ← pitchOf w n frequency
  let wave := (List.range n).map fun i => p.amplitude * w.level (pitch i) p.number (timeOf i)
  return List.zipWith (· + ·) samples wave

def addFrequency (w : Waveform) (partials : List Partial) (n : Nat) (samples : List Float)
    (frequency : Value) : Except Fault (List Float) :=
  partials.foldlM (addPartial w n frequency) samples

def mix (w : Waveform) (partials : List Partial) (frequencies : List Value) (n : Nat) :
    Except Fault (List Float) :=
  frequencies.foldlM (addFrequency w partials n) (List.replicate n 0.0)

def reduce (ratio : Float) (length : Int) : Except Fault Int :=
  if (Number.ofInt length).isInf then .error .integerOverflow else .ok (Stages.scale ratio length)

def shorten (n attack decay release : Int) : Except Fault (Int × Int × Int) :=
  let total := attack + decay + release
  if n < total then
    if total = 0 then .error .integerDivisionByZero
    else
      let ratio := Number.ofQuotient n total
      if ratio.isInf then .error .quotientOverflow
      else do
        let attack ← reduce ratio attack
        let decay ← reduce ratio decay
        let release ← reduce ratio release
        return (attack, decay, release)
  else .ok (attack, decay, release)

def lengths (e : Envelope Value) (n : Int) : Except Fault (Int × Int × Int) := do
  let attack ← sampleCount e.attack
  let decay ← sampleCount e.decay
  let release ← sampleCount e.release
  shorten n attack decay release

def normalise (samples : List Float) : Except Fault (List Float) := do
  if samples.isEmpty then throw .emptySound
  let top := peak samples
  let top := if top < 1.0 then 1.0 else top
  return samples.map fun x => x / top

def stretch (length start stop : Int) (levels : Except Fault (Grid Float)) (xs : List Float) :
    Except Fault (List Float) := do
  if 0 < length then assign start stop (← levels) xs else .ok xs

def gains (sustain : Value) (n : Nat) (attack decay release : Int) : Except Fault (List Float) := do
  let held := (n : Int) - (attack + decay + release)
  let level := sustainedOf sustain
  let xs := List.replicate n 1.0
  let xs ← stretch attack 0 attack (.ok (.row (ramp 0.0 1.0 attack.toNat))) xs
  let xs ← stretch decay attack (attack + decay) (level.fall decay.toNat) xs
  let xs ← stretch held (attack + decay) (attack + decay + held) level.held xs
  stretch release (-release) n (level.fade release.toNat) xs

def render (w : Waveform) (partials : List Partial) (e : Envelope Value) (frequencies : List Value)
    (seconds volume : Value) : Except Fault (List Int16 × List Int16) := do
  let n ← sampleCount seconds
  let (attack, decay, release) ← lengths e n
  if n < 0 then throw .negativeSize
  let samples ← mix w partials frequencies n.toNat
  let samples ← normalise samples
  let envelope ← gains e.sustain n.toNat attack decay release
  let samples ← sampled (List.zipWith (· * ·) samples envelope) volume
  return samples.channels

end Melody.Sound.Chord
