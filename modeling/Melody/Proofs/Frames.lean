import Mathlib.Tactic.SplitIfs
import Melody.Proofs.Walks

/-!
# What plain commands leave alone

A command without a block of its own changes the timbre of the engine, lets time pass or starts a
sound. It touches neither the modes of playing nor the scope nor the program. If it is no note,
or if sounds are waited for, it leaves no sound behind. `Tolerant` names the relations between
performers that all these commands keep.
-/

set_option autoImplicit false

namespace Melody.Sound.Engine

open Act

def overlaps (e : Engine) : Bool :=
  e.parallel.isTrue || e.temporary

/-- The modes stay, and nothing becomes active, unless the change is loud, that is, a sound that is
not waited for may have started. -/
structure Kept (loud : Bool) (e e' : Engine) : Prop where
  parallel : e'.parallel = e.parallel
  saved : e'.saved = e.saved
  temporary : e'.temporary = e.temporary
  quiet : (loud → e.overlaps = false) → e.active = [] → e'.active = []

section Kept

variable {loud : Bool} {e e' e'' : Engine}

theorem Kept.refl (e : Engine) : e.Kept loud e :=
  ⟨rfl, rfl, rfl, fun _ h => h⟩

theorem Kept.overlaps (h : e.Kept loud e') : e'.overlaps = e.overlaps := by
  unfold Engine.overlaps
  rw [h.parallel, h.temporary]

theorem Kept.trans (h : e.Kept loud e') (h' : e'.Kept loud e'') : e.Kept loud e'' := by
  refine ⟨h'.parallel.trans h.parallel, h'.saved.trans h.saved,
    h'.temporary.trans h.temporary, ?_⟩
  intro ho ha
  exact h'.quiet (fun hl => h.overlaps.trans (ho hl)) (h.quiet ho ha)

theorem Kept.loudly (h : e.Kept false e') : e.Kept loud e' :=
  ⟨h.parallel, h.saved, h.temporary, fun _ => h.quiet nofun⟩

end Kept

theorem kept_fire (e : Engine) (w : Watcher) : e.Kept false (e.fire w) := by
  refine ⟨rfl, rfl, rfl, ?_⟩
  intro _ ha
  simp [fire, ha]

theorem kept_fires (ws : List Watcher) (e : Engine) : e.Kept false (ws.foldl fire e) := by
  induction ws generalizing e with
  | nil => exact .refl e
  | cons w ws ih => exact (kept_fire e w).trans (ih (e.fire w))

theorem kept_pass (stop : Float) (e : Engine) : e.Kept false (e.passUntil stop) := by
  have h := kept_fires (e.watchers.filter fun w => w.due ≤ stop) e
  exact ⟨h.parallel, h.saved, h.temporary, h.quiet⟩

theorem keeps_sleep (seconds : Value) : (sleep seconds).Keeps (Kept false) := by
  intro e
  unfold sleep
  rw [ensures_bind, ensures_of_except]
  intro length _
  split_ifs
  · rw [ensures_bind]
    exact ensures_fail _
  · rw [ensures_bind, ensures_read]
    split
    · exact ensures_halt _
    · rw [ensures_bind, ensures_emit, ensures_change]
      have h := kept_pass (e.now + length) e
      exact ⟨h.parallel, h.saved, h.temporary, h.quiet⟩

theorem keeps_wait (n : Nat) : (waitWithin n).Keeps (Kept false) := by
  induction n with
  | zero =>
    intro e
    exact ensures_halt _
  | succ n ih =>
    intro e
    rw [waitWithin, ensures_bind, ensures_read]
    split
    · exact (ensures_pure ()).mpr (.refl e)
    · exact (keeps_sleep glance).bind (fun _ => ih) Kept.trans e

theorem wait_silent (n : Nat) (e : Engine) :
    (waitWithin n).Ensures e fun _ e' => e'.active = [] := by
  induction n generalizing e with
  | zero => exact ensures_halt _
  | succ n ih =>
    rw [waitWithin, ensures_bind, ensures_read]
    split
    · rename_i hnone
      exact (ensures_pure ()).mpr (List.isEmpty_iff.mp hnone)
    · exact (keeps_sleep glance).ensures_bind fun _ e' _ => ih e'

/-- Waiting ends when no sound is active. -/
theorem await_silent (e : Engine) :
    awaitSounds.Ensures e fun _ e' => e.Kept false e' ∧ e'.active = [] := by
  unfold awaitSounds
  rw [ensures_bind, ensures_read]
  intro a ha
  exact ⟨keeps_wait _ e a ha, wait_silent _ e a ha⟩

def modes (e : Engine) : List Value :=
  e.parallel :: e.saved

def opened (e : Engine) : Engine :=
  { e with parallel := .bool true, saved := e.modes }

def restored (e : Engine) : Engine :=
  match e.saved with
  | mode :: rest => { e with parallel := mode, saved := rest }
  | [] => e

section Modes

variable (e : Engine)

@[simp] theorem restored_active : e.restored.active = e.active := by
  unfold restored
  split <;> rfl

@[simp] theorem restored_temporary : e.restored.temporary = e.temporary := by
  unfold restored
  split <;> rfl

theorem restored_modes {e : Engine} (h : e.saved ≠ []) : e.restored.modes = e.saved := by
  unfold restored
  cases hs : e.saved with
  | nil => exact absurd hs h
  | cons mode rest => rfl

theorem Kept.modes {loud : Bool} {e e' : Engine} (h : e.Kept loud e') : e'.modes = e.modes := by
  unfold Engine.modes
  rw [h.parallel, h.saved]

end Modes

theorem ensures_restore {e : Engine} {Q : Unit → Engine → Prop} :
    restoreMode.Ensures e Q ↔ Q () e.restored := by
  unfold restoreMode restored
  rw [ensures_bind, ensures_read]
  cases e.saved with
  | nil => exact ensures_say _
  | cons mode rest => rw [ensures_bind, ensures_change, ensures_say]

/-- A sound that starts is either waited for or becomes active, which the modes decide. -/
theorem keeps_start (channels : List Int16 × List Int16) (seconds : Value) :
    (start channels seconds).Keeps (Kept true) := by
  intro e
  unfold start
  rw [ensures_bind, ensures_read, ensures_bind, ensures_of_except]
  intro length _
  rw [ensures_bind, ensures_change, ensures_bind, ensures_emit]
  split
  · rename_i hmode
    rw [ensures_change]
    refine ⟨rfl, rfl, rfl, ?_⟩
    intro hquiet
    exact absurd hmode (by rw [show (_ || _) = false from hquiet rfl]; decide)
  · refine (keeps_sleep seconds _).mono ?_
    intro _ e' h
    exact ⟨h.parallel, h.saved, h.temporary, h.loudly.quiet⟩

theorem keeps_play (frequencies : List Value) (seconds volume : Value) :
    (play frequencies seconds volume).Keeps (Kept true) := by
  intro e
  rw [play_eq, sounding, ensures_bind, ensures_read, ensures_bind, ensures_of_except]
  intro channels _
  exact keeps_start channels seconds e

theorem keeps_instrument (name : Value) : (chooseInstrument name).Keeps (Kept false) := by
  intro e
  unfold chooseInstrument
  rw [ensures_bind, ensures_of_except]
  intro found _
  split
  · rw [ensures_bind, ensures_change, ensures_bind, ensures_say, ensures_pure]
    exact ⟨rfl, rfl, rfl, fun _ h => h⟩
  · rw [ensures_bind, ensures_say, ensures_pure]
    exact .refl e

theorem keeps_waveform (name : Value) : (chooseWaveform name).Keeps (Kept false) := by
  intro e
  unfold chooseWaveform
  split
  · split
    · rw [ensures_change]
      exact ⟨rfl, rfl, rfl, fun _ h => h⟩
    · rw [ensures_bind, ensures_say, ensures_change]
      exact ⟨rfl, rfl, rfl, fun _ h => h⟩
  · exact ensures_fail _

theorem keeps_envelope (stages : Envelope (Option Value)) :
    (chooseEnvelope stages).Keeps (Kept false) := by
  intro e
  unfold chooseEnvelope
  rw [ensures_change]
  exact ⟨rfl, rfl, rfl, fun _ h => h⟩

end Melody.Sound.Engine

namespace Melody.Performance

open Act

theorem text_of_name {v : Value} {name : String} (h : v.asName = .ok (some name)) :
    v = .text name := by
  cases v with
  | text s =>
    cases h
    rfl
  | _ => cases h

/-- A bad value only turns a fault into an exit. -/
theorem ensures_stop (reason : String) (m : Performance Unit) {p : Performer}
    {Q : Unit → Performer → Prop} (h : m.Ensures p Q) : (stopOnBadValue reason m).Ensures p Q := by
  intro a ha
  unfold stopOnBadValue at ha ⊢
  dsimp only at ha ⊢
  split at ha
  · split_ifs at ha
    rename_i hfault _
    rw [hfault] at ha
    cases ha
  · exact h a ha

structure Tolerant (loud : Bool) (R : Performer → Performer → Prop) : Prop where
  refl : ∀ p, R p p
  trans : ∀ {p q r}, R p q → R q r → R p r
  engine : ∀ p e, p.engine.Kept loud e → R p { p with engine := e }

section Tolerant

variable {α : Type} {loud : Bool} {R : Performer → Performer → Prop} (hR : Tolerant loud R)

include hR

theorem Tolerant.still {m : Performance α} (hm : m.Still) : m.Keeps R :=
  fun p => hm.ensures fun _ => hR.refl p

theorem Tolerant.bind {β : Type} {m : Performance α} {f : α → Performance β} (hm : m.Keeps R)
    (hf : ∀ a, (f a).Keeps R) : (m >>= f).Keeps R :=
  Keeps.bind hm hf hR.trans

theorem Tolerant.keeps_sound {m : Act Sound.Engine α} (hm : m.Keeps (Sound.Engine.Kept loud)) :
    (sound m).Keeps R := by
  intro p
  rw [sound, ensures_on_part]
  exact (hm p.engine).mono fun _ e he => hR.engine p e he

theorem Tolerant.keeps_quiet {m : Act Sound.Engine α} (hm : m.Keeps (Sound.Engine.Kept false)) :
    (sound m).Keeps R :=
  hR.keeps_sound fun e => (hm e).mono fun _ _ he => he.loudly

theorem Tolerant.walk : Walk fun _ m => m.Keeps R where
  answer a := hR.still (still_answer a)
  fail f := hR.still (still_fail f)
  say line _ := hR.still (still_say line)
  read := hR.still still_read
  bind := hR.bind

/-- The commands for the engine keep every relation that tolerates what they do. -/
theorem Tolerant.playing : Playing loud fun _ m => m.Keeps R where
  toWalk := hR.walk
  stop reason _ hm p := ensures_stop reason _ (hm p)
  play hloud frequencies seconds volume := by
    subst hloud
    exact hR.keeps_sound (Sound.Engine.keeps_play frequencies seconds volume)
  sleep seconds := hR.keeps_quiet (Sound.Engine.keeps_sleep seconds)
  instrument name := hR.keeps_quiet (Sound.Engine.keeps_instrument name)
  waveform name := hR.keeps_quiet (Sound.Engine.keeps_waveform name)
  envelope stages := hR.keeps_quiet (Sound.Engine.keeps_envelope stages)

end Tolerant

end Melody.Performance
