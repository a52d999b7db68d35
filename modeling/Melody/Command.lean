import Melody.Value

/-!
# Commands

The commands of a melody. Their fields are values, because variables are put into them before
they run. When a command comes from outside, a field can be missing, further fields can stand
beside those of its kind, and any value can stand where a command is expected.
-/

set_option autoImplicit false

namespace Melody

abbrev Slot := Option Value

mutual
inductive Command where
  | play (note accidental duration : Slot)
  | playChord (name notes duration : Slot)
  | pause (duration : Slot)
  | envelope (attack decay sustain release : Slot)
  | waveform (name : Slot)
  | instrument (name : Slot)
  | startParallel
  | endParallel
  | branch (condition : Slot) (whenTrue whenFalse : Block)
  | loop (times : Slot) (body : Block)
  | forEach (name collection reversed : Slot) (body : Block)
  | call (function arguments : Slot)
  | marked (further : List (String × Value)) (c : Command)
  | other (v : Value)

inductive Block where
  | missing
  | value (v : Value)
  | commands (cs : List Command)
end

instance : Inhabited Command := ⟨.startParallel⟩

instance : Inhabited Block := ⟨.missing⟩

namespace Command

def core : Command → Command
  | .marked _ c => c.core
  | c => c

def noteValue (name : List Char) (accidental : Option Char) : Value :=
  .record
    [("nota", .text (String.ofList name)),
     ("modificador", (accidental.map fun c => Value.text c.toString).getD .none)]

def textSlot (cs : List Char) : Slot :=
  some (.text (String.ofList cs))

def ofNote (note : List Char) (accidental : Option Char) (duration : List Char) : Command :=
  .play (textSlot note) (some ((accidental.map fun c => Value.text c.toString).getD .none))
    (textSlot duration)

end Command

end Melody
