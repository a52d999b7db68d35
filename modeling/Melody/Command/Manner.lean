import Melody.Command.Plain

/-!
# The two manners of reading

The diagnosing reader and the plain one under one name. The commands that the plain reader
leaves in an empty list, what it prints and the fault that ends it are its reading.
-/

set_option autoImplicit false

namespace Melody

def Event.line? : Event → Option String
  | .printed line => some line
  | _ => none

def Halt.fault? : Halt → Option Fault
  | .fault f => some f
  | _ => none

namespace Command

inductive Manner where
  | diagnosing
  | plain
deriving DecidableEq, Repr

def Reading.ofWriter (m : Plain.Writer Unit) : Reading :=
  let run := m []
  { commands := run.state
    printed := run.events.filterMap Event.line?
    fault :=
      match run.outcome with
      | .ok _ => none
      | .error h => h.fault? }

def readLine (manner : Manner) (ctx : Context) (line : List Char) : Reading :=
  match manner with
  | .diagnosing => Diagnosing.readLine ctx line
  | .plain => .ofWriter (Plain.processLine ctx line)

def readLines (manner : Manner) (ctx : Context) (cs : List Char) : Reading :=
  match manner with
  | .diagnosing => Diagnosing.readLines ctx cs
  | .plain => .ofWriter (Plain.processLines ctx cs)

def read (manner : Manner) (ctx : Context) (cs : List Char) : Reading :=
  match manner with
  | .diagnosing => Diagnosing.read ctx cs
  | .plain => .ofWriter (Plain.processMelody ctx cs)

end Command

end Melody
