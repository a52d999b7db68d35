import Melody.Proofs.Frames

/-!
# What can fail when a sound is made

The commands that play report a fault in a value and end the program. Here are the other faults
that can arise between the name of a note and its samples. There are three kinds: an octave beyond
the range of doubles, a tempo that has no beat, and stages of an envelope that have no length in
samples.
-/

set_option autoImplicit false

namespace Melody

theorem parse_int_error {cs : List Char} {f : Fault} (h : parseInt cs = .error f) :
    f.isBadValue = true := by
  unfold parseInt at h
  split at h
  · cases h
  · rename_i e _
    cases h
    cases e <;> rfl

namespace Theory

def lettersOf (note : String) : String :=
  String.ofList ((Text.lower note).toList.filter fun c => !Text.isDigit c)

def octaveOf (note : String) : List Char :=
  (Text.lower note).toList.filter Text.isDigit

def mostOctaves : Int := 1023

structure TooHigh (note : String) : Prop where
  named : noteFrequencies.lookup (lettersOf note) ≠ none
  octave : ∃ n, parseInt (octaveOf note) = .ok n ∧ middleOctave + mostOctaves < n

theorem move_error {base : Float} {octaves : Int} {f : Fault}
    (h : moveOctaves base octaves = .error f) : f = .integerOverflow ∧ mostOctaves < octaves := by
  unfold moveOctaves at h
  split_ifs at h with hlow hhigh
  cases h
  exact ⟨rfl, hhigh⟩

theorem natural_error {note : String} {f : Fault} (h : naturalFrequency note = .error f) :
    f.isBadValue = true ∨ f = .integerOverflow ∧ TooHigh note := by
  unfold naturalFrequency at h
  dsimp only at h
  split at h
  · cases h
  · split at h
    · rename_i base hdigits hbase
      rcases bind_error h with hn | ⟨n, hn, hmove⟩
      · exact .inl (parse_int_error hn)
      · obtain ⟨rfl, hhigh⟩ := move_error hmove
        refine .inr ⟨rfl, ?_, n, hn, ?_⟩
        · rw [lettersOf, hbase]
          simp
        · omega
    · cases h
      exact .inl rfl

def IsSign (v : Value) : Prop :=
  v = .none ∨ ∃ sign, v = .text sign

theorem frequency_error {note : String} (sign : Option String) {f : Fault}
    (h : frequency note sign = .error f) :
    f.isBadValue = true ∨ f = .integerOverflow ∧ TooHigh note := by
  rcases bind_error h with hn | ⟨base, -, h⟩
  · exact natural_error hn
  · split at h
    · cases h
    · cases h
    · split at h
      · cases h
      · cases h
        exact .inl rfl

theorem note_error {note : String} {accidental : Value} {f : Fault} (hs : IsSign accidental)
    (h : noteFrequency (.text note) accidental = .error f) :
    f.isBadValue = true ∨ f = .integerOverflow ∧ TooHigh note := by
  rcases hs with rfl | ⟨sign, rfl⟩
  · exact frequency_error none h
  · exact frequency_error (some sign) h

theorem seconds_error {name : String} {tempo : Value} {f : Fault}
    (h : seconds name tempo = .error f) : f.isBadValue = true ∨ beatSeconds tempo = .error f := by
  rcases bind_error h with hb | ⟨beat, -, h⟩
  · exact .inr hb
  · split at h
    · cases h
    · cases h
      exact .inl rfl

end Theory

namespace Sound

def stageLengths (e : Envelope Float) (seconds : Float) : Except Fault Stages := do
  let n ← sampleCount (.float seconds)
  (← stagesOf (e.map .float)).fit n

section Levels

variable {α : Type} {f : Fault}

theorem assign_error {start stop : Int} {new : Grid α} {old : List α}
    (h : assign start stop new old = .error f) : f.isBadValue = true := by
  unfold assign at h
  dsimp only at h
  split at h
  · split_ifs at h
    split at h
    · cases h
    · cases h
      rfl
  · cases h
    rfl

theorem write_error {start length : Int} {levels : Grid α} {old : List α}
    (h : Stages.write start length (.ok levels) old = .error f) : f.isBadValue = true := by
  unfold Stages.write at h
  split_ifs at h
  exact assign_error h

/-- For a level that is the same for all samples only the sizes can disagree. -/
theorem levels_error {ramp : α → α → Nat → List α} {zero one level : α} {n : Nat} {s : Stages}
    (h : s.levels ramp zero one (.steady ramp zero one level) n = .error f) :
    f.isBadValue = true := by
  rcases bind_error h with h | ⟨xs, -, h⟩
  · exact write_error h
  rcases bind_error h with h | ⟨xs, -, h⟩
  · exact write_error h
  rcases bind_error h with h | ⟨xs, -, h⟩
  · exact write_error h
  split at h
  · exact assign_error h
  · cases h

end Levels

/-- A volume that is a single number goes with every row of levels. -/
theorem sampled_float (levels : List Float) (volume : Float) :
    ∃ samples, sampled levels (.float volume) = .ok samples := by
  have hfactors : ∃ factors, factorsOf levels.length (.float volume) = .ok factors := by
    by_cases hnone : Grid.volume [levels.length] = 0
    · exact ⟨_, if_pos hnone⟩
    · exact ⟨_, if_neg hnone⟩
  obtain ⟨factors, hfactors⟩ := hfactors
  exact ⟨_, by rw [sampled, hfactors]; rfl⟩

theorem pitch_float (w : Waveform) (n : Nat) (x : Float) :
    pitchOf w n (.float x) = .ok fun _ => x := by
  cases w <;> rfl

theorem pitches_float (w : Waveform) (partials : List Partial) (n : Nat) (xs : List Float) :
    ∃ pitches, (xs.map Value.float).mapM (soundingPitch w partials n) = .ok pitches := by
  have hpitch (x : Float) : ∃ pitch, soundingPitch w partials n (.float x) = .ok pitch := by
    unfold soundingPitch
    split
    · exact ⟨_, rfl⟩
    · exact ⟨_, pitch_float w n x⟩
  induction xs with
  | nil => exact ⟨[], rfl⟩
  | cons x xs ih =>
    obtain ⟨pitch, hx⟩ := hpitch x
    obtain ⟨pitches, hxs⟩ := ih
    exact ⟨pitch :: pitches, by
      simp [List.mapM_cons, hx, hxs, bind, Except.bind, pure, Except.pure]⟩

/-- If all frequencies are numbers, rendering fails for the lengths of the stages or for a fault
in a value. -/
theorem render_error {level : Nat → Except Fault (Nat → Float)} {e : Envelope Float}
    {seconds volume : Float} {f : Fault} (hlevel : ∀ n, ∃ sample, level n = .ok sample)
    (h : render level (e.map .float) (.float seconds) (.float volume) = .error f) :
    f.isBadValue = true ∨ stageLengths e seconds = .error f := by
  rcases bind_error h with hn | ⟨n, hn, h⟩
  · right
    rw [stageLengths, hn]
    rfl
  rcases bind_error h with hs | ⟨stages, hs, h⟩
  · right
    rw [stageLengths, hn, hs]
    rfl
  rcases bind_error h with hfit | ⟨fitted, -, h⟩
  · right
    rw [stageLengths, hn, hs]
    exact hfit
  left
  obtain ⟨sample, hsample⟩ := hlevel n.toNat
  dsimp only at h
  split at h
  · cases h
    rfl
  rw [hsample] at h
  rcases bind_error h with hnone | ⟨_, hok, h⟩
  · cases hnone
  cases hok
  split at h
  · cases h
    rfl
  rcases bind_error h with hlevels | ⟨gains, -, h⟩
  · exact levels_error hlevels
  rcases bind_error h with hsampled | ⟨samples, -, h⟩
  · obtain ⟨samples, hok⟩ := sampled_float _ volume
    cases hok.symm.trans hsampled
  · cases h

namespace Engine

open Act

structure Tuned (shape : Envelope Float) (e : Engine) : Prop where
  envelope : e.envelope = shape.map .float
  patience : e.patience = none

section Tuned

variable {shape : Envelope Float} {e : Engine} {E : Halt → Prop}

theorem Tuned.fires (h : e.Tuned shape) (ws : List Watcher) : (ws.foldl fire e).Tuned shape := by
  induction ws generalizing e with
  | nil => exact h
  | cons w ws ih => exact ih ⟨h.envelope, h.patience⟩

theorem Tuned.sleep (h : e.Tuned shape) {x : Float} (hx : x < 0.0 → E (.fault .negativePause)) :
    (Engine.sleep (.float x)).Meets e E fun _ e' => e'.Tuned shape := by
  unfold Engine.sleep
  change (ofExcept (.ok x) >>= _ : Act Engine Unit).Meets e E _
  rw [of_except_bind]
  split
  · rename_i hneg
    rw [meets_bind, meets_fail]
    exact hx hneg
  · rw [meets_bind, meets_read, h.patience]
    dsimp only
    rw [meets_bind, meets_emit, meets_change]
    exact ⟨(h.fires _).envelope, rfl⟩

theorem Tuned.wait (h : e.Tuned shape) (hstalled : E .stalled) (n : Nat) :
    (waitWithin n).Meets e E fun _ e' => e'.Tuned shape := by
  induction n generalizing e with
  | zero => exact (meets_halt _).mpr hstalled
  | succ n ih =>
    rw [waitWithin, meets_bind, meets_read]
    split
    · exact (meets_pure ()).mpr h
    · rw [meets_bind]
      have hglance : ¬ (0.1 : Float) < 0.0 := by decide
      exact (h.sleep fun hneg => absurd hneg hglance).mono fun _ _ h' => ih h'

theorem Tuned.await (h : e.Tuned shape) (hstalled : E .stalled) :
    awaitSounds.Meets e E fun _ e' => e'.Tuned shape := by
  unfold awaitSounds
  rw [meets_bind, meets_read]
  exact h.wait hstalled _

theorem Tuned.start (h : e.Tuned shape) (hpause : E (.fault .negativePause))
    (channels : List Int16 × List Int16) (x : Float) :
    (Engine.start channels (.float x)).Meets e E fun _ e' => e'.Tuned shape := by
  unfold Engine.start
  rw [meets_bind, meets_read]
  change (ofExcept (.ok x) >>= _ : Act Engine Unit).Meets e E _
  rw [of_except_bind, meets_bind, meets_change, meets_bind, meets_emit]
  split
  · rw [meets_change]
    exact ⟨h.envelope, h.patience⟩
  · have h' : Tuned shape { e with sounds := e.sounds + 1 } := ⟨h.envelope, h.patience⟩
    exact h'.sleep fun _ => hpause

/-- A sound of numbers fails for a fault in a value or for the lengths of the stages. -/
theorem Tuned.play (h : e.Tuned shape) {seconds : Float}
    (hbad : ∀ f : Fault, f.isBadValue = true → E (.fault f))
    (hstages : ∀ f, stageLengths shape seconds = .error f → E (.fault f))
    (frequencies : List Float) :
    (Engine.play (frequencies.map .float) (.float seconds) usualVolume).Meets e E fun _ e' =>
      e'.Tuned shape := by
  have hlevels (n : Nat) : ∃ level, e.chordLevels (frequencies.map .float) n = .ok level := by
    obtain ⟨pitches, hpitches⟩ := pitches_float e.waveform e.partials n frequencies
    rw [chordLevels, hpitches]
    exact ⟨_, rfl⟩
  rw [play_eq, sounding, meets_bind, meets_read, meets_bind, meets_of_except, h.envelope]
  constructor
  · intro f hf
    exact (render_error hlevels hf).elim (hbad f) (hstages f)
  · intro channels _
    exact h.start (hbad _ rfl) channels seconds

theorem Tuned.waveform (h : e.Tuned shape) (name : String) :
    (chooseWaveform (.text name)).Meets e E fun _ e' => e'.Tuned shape := by
  unfold chooseWaveform
  dsimp only
  split
  · rw [meets_change]
    exact ⟨h.envelope, h.patience⟩
  · rw [meets_bind, meets_say, meets_change]
    exact ⟨h.envelope, h.patience⟩

/-- The envelope stays or becomes that of an instrument. -/
theorem Tuned.instrument (h : e.Tuned shape) (name : String) :
    (chooseInstrument (.text name)).Meets e E fun _ e' =>
      e'.Tuned shape ∨ ∃ i : Instrument, e'.Tuned i.timbre.envelope := by
  unfold chooseInstrument
  change (ofExcept (.ok (Instrument.ofName? name)) >>= _ : Act Engine Bool).Meets e E _
  rw [of_except_bind]
  cases Instrument.ofName? name with
  | none =>
    dsimp only
    rw [meets_bind, meets_say, meets_pure]
    exact .inl h
  | some i =>
    dsimp only
    rw [meets_bind, meets_change, meets_bind, meets_say, meets_pure]
    exact .inr ⟨i, rfl, h.patience⟩

theorem Tuned.envelope_given (h : e.Tuned shape) (new : Envelope Float) :
    (chooseEnvelope (new.map fun x => some (.float x))).Meets e E fun _ e' => e'.Tuned new := by
  unfold chooseEnvelope
  rw [meets_change]
  exact ⟨rfl, h.patience⟩

theorem Tuned.parallel (h : e.Tuned shape) (mode : Value) :
    (setParallel mode).Meets e E fun _ e' => e'.Tuned shape := by
  unfold setParallel
  rw [meets_bind, meets_change, meets_say]
  exact ⟨h.envelope, h.patience⟩

theorem Tuned.save (h : e.Tuned shape) : saveMode.Meets e E fun _ e' => e'.Tuned shape := by
  unfold saveMode
  rw [meets_change]
  exact ⟨h.envelope, h.patience⟩

theorem Tuned.restore (h : e.Tuned shape) : restoreMode.Meets e E fun _ e' => e'.Tuned shape := by
  unfold restoreMode
  rw [meets_bind, meets_read]
  split
  · rw [meets_bind, meets_change, meets_say]
    exact ⟨h.envelope, h.patience⟩
  · exact (meets_say _).mpr h

end Tuned

end Engine

end Sound

end Melody
