import Melody.Event
import Melody.Program
import Melody.Scope
import Melody.Sound.Engine

/-!
# Performers

A performer plays a program. It has global variables, the scope of the function or loop that
runs, and a sound engine.
-/

set_option autoImplicit false

namespace Melody

structure Performer where
  program : Program := {}
  globals : Table Value := []
  scope : Scope := []
  engine : Sound.Engine := {}
  debug : Bool := false

abbrev Performance (α : Type) := Act Performer α

namespace Performance

variable {α : Type}

open Act

def sound (m : Act Sound.Engine α) : Performance α :=
  onPart Performer.engine (fun e p => { p with engine := e }) m

def sayIfDebug (line : String) : Performance Unit := do
  if (← read).debug then say line

def setScope (scope : Scope) : Performance Unit :=
  change fun p => { p with scope := scope }

def need (name : String) : Slot → Performance Value
  | some v => answer v
  | none => fail (.missingField name)

def lookup (name : Value) : Performance (Option Value) := do
  let p ← read
  let text ← ofExcept name.asName
  return (p.scope.find? name).or (text.bind p.globals.find?)

def instrumentName : Performance String := do
  return (← read).engine.instrument.name

end Performance

end Melody
