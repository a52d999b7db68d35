/-!
# Envelopes

The loudness of a note rises during the attack, falls to the sustained level during the decay,
stays there, and dies away during the release.
-/

set_option autoImplicit false

namespace Melody

structure Envelope (α : Type) where
  attack : α
  decay : α
  sustain : α
  release : α

namespace Envelope

variable {α β : Type}

def map (f : α → β) (e : Envelope α) : Envelope β :=
  ⟨f e.attack, f e.decay, f e.sustain, f e.release⟩

def toList (e : Envelope α) : List α :=
  [e.attack, e.decay, e.sustain, e.release]

def override (e : Envelope α) (change : Envelope (Option α)) : Envelope α :=
  ⟨change.attack.getD e.attack, change.decay.getD e.decay, change.sustain.getD e.sustain,
    change.release.getD e.release⟩

end Envelope

end Melody
