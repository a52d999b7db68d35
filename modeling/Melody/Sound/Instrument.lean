import Melody.Envelope
import Melody.Sound.Waveform

/-!
# Instruments

An instrument is a waveform, an envelope and the loudness of its partials.
-/

set_option autoImplicit false

namespace Melody.Sound

structure Partial where
  amplitude : Float
  number : Float

structure Timbre where
  waveform : Waveform
  envelope : Envelope Float
  partials : List Partial

inductive Instrument where
  | piano
  | guitar
  | violin
  | flute
  | bass
  | synthesizer
deriving DecidableEq, Repr

namespace Instrument

def all : List Instrument := [piano, guitar, violin, flute, bass, synthesizer]

def name : Instrument → String
  | piano => "piano"
  | guitar => "guitarra"
  | violin => "violino"
  | flute => "flauta"
  | bass => "baixo"
  | synthesizer => "sintetizador"

def ofName? (name : String) : Option Instrument :=
  all.find? fun i => i.name == name

def names : String := String.intercalate ", " (all.map name)

def description : Instrument → String
  | piano => "Som clássico de piano com decay natural"
  | guitar => "Timbre brilhante de guitarra elétrica"
  | violin => "Som suave e expressivo de violino"
  | flute => "Som puro e delicado de flauta"
  | bass => "Som profundo e ressoante de baixo"
  | synthesizer => "Som sintético quadrado com característica eletrônica"

def timbre : Instrument → Timbre
  | piano =>
    ⟨.sine, ⟨0.01, 0.1, 0.7, 0.3⟩, [⟨1.0, 1.0⟩, ⟨0.7, 2.0⟩, ⟨0.4, 3.0⟩, ⟨0.25, 4.0⟩]⟩
  | guitar =>
    ⟨.sawtooth, ⟨0.005, 0.15, 0.5, 0.1⟩,
      [⟨1.0, 1.0⟩, ⟨0.85, 2.0⟩, ⟨0.6, 3.0⟩, ⟨0.5, 4.0⟩, ⟨0.4, 5.0⟩, ⟨0.3, 6.0⟩]⟩
  | violin =>
    ⟨.sine, ⟨0.15, 0.05, 0.9, 0.3⟩,
      [⟨1.0, 1.0⟩, ⟨0.5, 2.0⟩, ⟨0.35, 3.0⟩, ⟨0.15, 4.0⟩, ⟨0.1, 5.0⟩]⟩
  | flute => ⟨.sine, ⟨0.08, 0.03, 0.95, 0.1⟩, [⟨1.0, 1.0⟩, ⟨0.1, 2.0⟩, ⟨0.05, 3.0⟩]⟩
  | bass =>
    ⟨.triangle, ⟨0.04, 0.2, 0.8, 0.3⟩,
      [⟨1.0, 1.0⟩, ⟨0.6, 2.0⟩, ⟨0.3, 3.0⟩, ⟨0.2, 4.0⟩, ⟨0.1, 5.0⟩]⟩
  | synthesizer =>
    ⟨.square, ⟨0.01, 0.0, 1.0, 0.05⟩, [⟨1.0, 1.0⟩, ⟨0.1, 3.0⟩, ⟨0.3, 5.0⟩, ⟨0.2, 7.0⟩]⟩

end Instrument

end Melody.Sound
