import Melody.Proofs.Depth
import Melody.Proofs.Walks

/-!
# Actions that run no commands

Only blocks and calls nest. All other actions of a performance, on the engine as well as on the
performer, may halt for many reasons, but never because commands nest too deep. `Stays` says this of
an action in one state and tells what it leaves if it answers.
-/

set_option autoImplicit false

namespace Melody.Act

variable {σ α β : Type}

theorem shallow_halt {h : Halt} (hne : h ≠ .tooDeep) : (halt h : Act σ α).Shallow := by
  intro s hdeep
  exact hne (Except.error.inj hdeep)

theorem walk_shallow : FreeWalk fun α (m : Act σ α) => m.Shallow where
  answer := shallow_answer
  fail _ := shallow_halt nofun
  say line _ := shallow_emit (.printed line)
  read := shallow_read
  bind := Shallow.bind
  halt _ := shallow_halt
  emit e _ := shallow_emit e
  change := shallow_change

def Stays (m : Act σ α) (s : σ) (Q : α → σ → Prop) : Prop :=
  m.Meets s (· ≠ .tooDeep) Q

section Stays

variable {m : Act σ α} {f : α → Act σ β} {s : σ} {Q Q' : α → σ → Prop} {S : β → σ → Prop}

theorem Stays.mono (h : m.Stays s Q) (hq : ∀ a t, Q a t → Q' a t) : m.Stays s Q' :=
  Meets.mono h hq

theorem stays_bind : (m >>= f).Stays s S ↔ m.Stays s fun a t => (f a).Stays t S :=
  meets_bind

theorem Shallow.stays (hm : m.Shallow) (h : m.Ensures s Q) : m.Stays s Q := by
  refine ⟨?_, h⟩
  rintro _ hdeep rfl
  exact hm s hdeep

/-- An action that only looks leaves the state to the next one. -/
theorem Shallow.stays_bind (hm : m.Shallow) (hstill : m.Still) (hf : ∀ a, (f a).Stays s S) :
    (m >>= f).Stays s S :=
  Act.stays_bind.mpr (hm.stays (hstill.ensures hf))

end Stays

end Melody.Act

namespace Melody.Performance

open Act Sound

theorem shallow_stop (reason : String) {m : Performance Unit} (h : m.Shallow) :
    (stopOnBadValue reason m).Shallow := by
  intro p hdeep
  unfold stopOnBadValue at hdeep
  dsimp only at hdeep
  split at hdeep
  · split at hdeep
    · cases hdeep
    · exact h p hdeep
  · exact h p hdeep

theorem shallow_sound {α : Type} {m : Act Engine α} (hm : m.Shallow) : (sound m).Shallow :=
  fun p => hm p.engine

theorem playing_shallow : Playing true fun _ m => m.Shallow where
  toWalk := walk_shallow.toWalk
  stop := shallow_stop
  play _ frequencies seconds volume :=
    shallow_sound (Engine.walk_play walk_shallow frequencies seconds volume)
  sleep seconds := shallow_sound (Engine.walk_sleep walk_shallow seconds)
  instrument name := shallow_sound (Engine.walk_instrument walk_shallow name)
  waveform name := shallow_sound (Engine.walk_waveform walk_shallow name)
  envelope _ := shallow_sound (shallow_change _)

theorem switching_shallow : Switching fun _ m => m.Shallow where
  toWalk := walk_shallow.toWalk
  save := shallow_sound (shallow_change _)
  parallel mode := shallow_sound (Engine.walk_set_parallel walk_shallow mode)
  restore := shallow_sound (Engine.walk_restore walk_shallow)
  await := shallow_sound (Engine.walk_await walk_shallow)

theorem shallow_read_body (body : List Char) : (readBody body).Shallow := by
  intro p hdeep
  unfold readBody at hdeep
  dsimp only at hdeep
  split at hdeep
  · cases hdeep
  · cases hdeep

end Melody.Performance
