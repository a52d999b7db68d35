import Melody.Text.Char

/-!
# Waveforms

The four basic oscillations. Each is a function of the frequency, the number of the partial and
the time in seconds, with values between minus one and one.
-/

set_option autoImplicit false

namespace Melody.Sound

inductive Waveform where
  | sine
  | square
  | triangle
  | sawtooth
deriving DecidableEq, Repr

namespace Waveform

def all : List Waveform := [sine, square, triangle, sawtooth]

def name : Waveform → String
  | sine => "sine"
  | square => "square"
  | triangle => "triangle"
  | sawtooth => "sawtooth"

def ofName? (name : String) : Option Waveform :=
  all.find? fun w => w.name == Text.lower name

def pi : Float := 3.141592653589793

def sign (x : Float) : Float :=
  if 0.0 < x then 1.0 else if x < 0.0 then -1.0 else x

def fromCycle (x : Float) : Float :=
  x - (x + 0.5).floor

def level (w : Waveform) (frequency partialNumber time : Float) : Float :=
  match w with
  | sine => (2.0 * pi * frequency * partialNumber * time).sin
  | square => sign (2.0 * pi * frequency * partialNumber * time).sin
  | triangle => 2.0 * (2.0 * fromCycle (time * frequency * partialNumber)).abs - 1.0
  | sawtooth => 2.0 * fromCycle (time * frequency * partialNumber)

end Waveform

end Melody.Sound
