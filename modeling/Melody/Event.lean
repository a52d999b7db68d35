import Melody.Fault
import Melody.Sound.Buffer
import Melody.Value

/-!
# Events and actions

What a run does to the outside: it prints lines, opens the sound device, starts and stops sounds,
and sleeps. An action changes a state, causes events and either answers or halts; the state and
the events before a halt are kept.
-/

set_option autoImplicit false

namespace Melody

inductive Event where
  | printed (line : String)
  | opened
  | started (sound : Sound.Buffer)
  | stopped (id : Nat)
  | slept (seconds : Value)

structure Effect (σ α : Type) where
  state : σ
  events : List Event
  outcome : Except Halt α

def Act (σ α : Type) : Type := σ → Effect σ α

namespace Act

variable {σ τ α β : Type}

def answer (a : α) : Act σ α :=
  fun s => ⟨s, [], .ok a⟩

def andThen (m : Act σ α) (f : α → Act σ β) : Act σ β := fun s =>
  let first := m s
  match first.outcome with
  | .error h => ⟨first.state, first.events, .error h⟩
  | .ok a =>
    let second := f a first.state
    ⟨second.state, first.events ++ second.events, second.outcome⟩

instance : Monad (Act σ) where
  pure := answer
  bind := andThen

def halt (h : Halt) : Act σ α :=
  fun s => ⟨s, [], .error h⟩

def fail (f : Fault) : Act σ α :=
  halt (.fault f)

def ofExcept : Except Fault α → Act σ α
  | .ok a => answer a
  | .error f => fail f

def emit (e : Event) : Act σ Unit :=
  fun s => ⟨s, [e], .ok ()⟩

def say (line : String) : Act σ Unit :=
  emit (.printed line)

def read : Act σ σ :=
  fun s => ⟨s, [], .ok s⟩

def change (f : σ → σ) : Act σ Unit :=
  fun s => ⟨f s, [], .ok ()⟩

def onPart (get : σ → τ) (set : τ → σ → σ) (m : Act τ α) : Act σ α := fun s =>
  let e := m (get s)
  ⟨set e.state s, e.events, e.outcome⟩

def repeatFrom (m : Nat → Act σ Unit) : Nat → Nat → Act σ Unit
  | _, 0 => answer ()
  | i, n + 1 => andThen (m i) fun _ => repeatFrom m (i + 1) n

end Act

end Melody
