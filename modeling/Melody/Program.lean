import Melody.Command
import Melody.Command.Read
import Melody.Envelope
import Melody.Function.Builtin

/-!
# Programs

A program has global settings, chords, functions and melodies. It starts with the settings
every program has, and each definition found in a text changes it.
-/

set_option autoImplicit false

namespace Melody

structure Program where
  tempo : Value := .int 120
  instrument : String := "piano"
  melodies : Table (List Command) := []
  chords : Table Value := []
  globals : Table Value := []
  functions : Table Function := Function.Builtin.all.map fun b => (b.name, .builtin b)
  envelope : Option (Envelope Float) := none
  waveform : String := ""
  parallel : Bool := false
  debug : Bool := false
  mistakes : List Command.Mistake := []
  complaints : List String := []

namespace Program

def reset (p : Program) : Program :=
  -- what was recorded so far outlives the settings
  { debug := p.debug, mistakes := p.mistakes, complaints := p.complaints }

def context (p : Program) : Command.Context :=
  { chords := p.chords, functions := p.functions.map (·.1) }

def userFunctions (p : Program) : List (String × List String × List Char) :=
  p.functions.filterMap fun f =>
    match f.2 with
    | .user parameters body => some (f.1, parameters, body)
    | .builtin _ => none

def builtinNames (p : Program) : List String :=
  p.functions.filterMap fun f =>
    match f.2 with
    | .builtin _ => some f.1
    | .user _ _ => none

end Program

structure Loaded where
  program : Program
  printed : List String := []
  fault : Option Fault := none

namespace Loaded

def andThen (l : Loaded) (step : Program → Loaded) : Loaded :=
  match l.fault with
  | some _ => l
  | none =>
    let next := step l.program
    ⟨next.program, l.printed ++ next.printed, next.fault⟩

def run : List (Program → Loaded) → Program → Loaded
  | [], p => ⟨p, [], none⟩
  | step :: rest, p => (step p).andThen (run rest)

end Loaded

end Melody
