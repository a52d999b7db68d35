import Melody.Fault
import Melody.Value

/-!
# Durations

A duration is named and lasts a multiple of the beat; the tempo is given in beats per minute.
-/

set_option autoImplicit false

namespace Melody.Theory

def durationBeats : List (String × Float) :=
  [("breve", 4.0), ("semibreve", 2.0), ("minima", 1.0), ("seminima", 0.5), ("colcheia", 0.25),
   ("semicolcheia", 0.125)]

def beatSeconds (tempo : Value) : Except Fault Float :=
  match tempo with
  | .float x => if x == 0.0 then .error .divisionByZero else .ok (60.0 / x)
  | v =>
    match v.asInt? with
    | some n =>
      let x := Number.ofInt n
      if x.isInf then .error .integerOverflow
      else if n = 0 then .error .divisionByZero
      else .ok (60.0 / x)
    | none => .error (.notOperands "/" "float" v.kind)

/-- The seconds of a named duration. The tempo is examined before the name, and a beat counts
twice. -/
def seconds (name : String) (tempo : Value) : Except Fault Float := do
  let beat ← beatSeconds tempo
  match durationBeats.lookup (Text.lower name) with
  | some beats => return beats * beat * 2.0
  | none => .error (.unknownDuration name)

end Melody.Theory
