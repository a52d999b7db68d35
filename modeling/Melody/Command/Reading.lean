import Melody.Command
import Melody.Fault

/-!
# Readings

Reading a text gives commands, printed lines and errors, in order, and ends either regularly or
with a fault. What was gathered before a fault is kept. `Reading.andThen` puts two readings
after each other: nothing is read after a fault.
-/

set_option autoImplicit false

namespace Melody.Command

inductive Mistake where
  | misspelled (word line : String)
  | playWithoutDuration (line : String)
deriving DecidableEq, Repr

def Mistake.message : Mistake → String
  | misspelled word line =>
    s!"ERRO DE SINTAXE: Palavra-chave incorreta '{word}' - use 'repetir': '{line}'"
  | playWithoutDuration line =>
    s!"ERRO DE SINTAXE: Comando 'tocar' sem duração válida: '{line}'"

structure Reading where
  commands : List Command := []
  printed : List String := []
  mistakes : List Mistake := []
  fault : Option Fault := none

namespace Reading

def empty : Reading := {}

def ofCommand (c : Command) : Reading := { commands := [c] }

def ofFault (f : Fault) : Reading := { fault := some f }

def say (line : String) : Reading := { printed := [line] }

def andThen (r s : Reading) : Reading :=
  match r.fault with
  | some _ => r
  | none =>
    ⟨r.commands ++ s.commands, r.printed ++ s.printed, r.mistakes ++ s.mistakes, s.fault⟩

theorem empty_and_then (r : Reading) : empty.andThen r = r := rfl

theorem and_then_empty (r : Reading) : r.andThen empty = r := by
  obtain ⟨commands, printed, mistakes, fault⟩ := r
  cases fault with
  | none => simp [andThen, empty]
  | some f => rfl

theorem and_then_assoc (r s t : Reading) : (r.andThen s).andThen t = r.andThen (s.andThen t) := by
  obtain ⟨commands, printed, mistakes, fault⟩ := r
  cases fault with
  | some f => rfl
  | none =>
    obtain ⟨commands', printed', mistakes', fault'⟩ := s
    cases fault' with
    | some f => rfl
    | none => simp only [andThen, List.append_assoc]

def sequence : List Reading → Reading
  | [] => empty
  | r :: rest => r.andThen (sequence rest)

def gather (r : Reading) (f : List Command → List Command) : Reading :=
  { r with commands := f r.commands }

def whole (r : Reading) (f : List Command → List Command) : Reading :=
  match r.fault with
  | some _ => { r with commands := [] }
  | none => r.gather f

end Reading

end Melody.Command
