import Melody.Theory.Pitch

/-!
# Chords built on a root

A kind of chord is a list of intervals in semitones above its root.
-/

set_option autoImplicit false

namespace Melody.Theory

def chordIntervals : List (String × List Nat) :=
  [("maior", [0, 4, 7]), ("menor", [0, 3, 7]), ("aumentado", [0, 4, 8]), ("diminuto", [0, 3, 6]),
   ("maior7", [0, 4, 7, 11]), ("menor7", [0, 3, 7, 10]), ("dominante7", [0, 4, 7, 10])]

def chordAbove (base : Float) (kind : String) : Except Fault (List Float) :=
  match chordIntervals.lookup (Text.lower kind) with
  | some intervals =>
    .ok (intervals.map fun i => base * Float.pow 2.0 (Number.ofRatio false i 12))
  | none => .error (.unknownChordKind kind)

end Melody.Theory
