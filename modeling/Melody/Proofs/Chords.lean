import Melody.Proofs.Actions
import Melody.Sound.Engine

/-!
# Chords of one note

Notes and chords are rendered and started by two paths. The chord adds rows of levels, lays out
its stages by itself and writes its envelope stretch by stretch. Each of these steps is shown to
come to what the rendering of a note does with the levels of the chord, so a chord is a rendering
with other levels; for a single frequency these are the levels of the note. So the two paths agree
in the samples, in the faults, in what is heard and in the engine afterwards, and the path of the
chords serves for every list of frequencies.
-/

set_option autoImplicit false

namespace Melody.Sound

def chordLevel (w : Waveform) (partials : List Partial) (pitches : List Pitch) (i : Nat) : Float :=
  pitches.foldl (fun sum p => addPartials w partials (p i) (timeOf i) sum) 0.0

namespace Chord

section Mix

variable (w : Waveform) (n : Nat)

theorem add_partial_eq {pitch : Pitch} {frequency : Value} (h : pitchOf w n frequency = .ok pitch)
    (level : Nat → Float) (p : Partial) :
    addPartial w n frequency ((List.range n).map level) p =
      .ok ((List.range n).map fun i =>
        level i + p.amplitude * w.level (pitch i) p.number (timeOf i)) := by
  simp only [addPartial, h, bind, Except.bind, pure, Except.pure, List.zipWith_map,
    List.zipWith_self]

/-- Adding the partials row by row adds them at every sample. -/
theorem add_frequency_eq (partials : List Partial) (frequency : Value) (level : Nat → Float) :
    addFrequency w partials n ((List.range n).map level) frequency =
      (soundingPitch w partials n frequency).map fun pitch =>
        (List.range n).map fun i => addPartials w partials (pitch i) (timeOf i) (level i) := by
  cases partials with
  | nil => rfl
  | cons p partials =>
    cases hpitch : pitchOf w n frequency with
    | error f => simp [addFrequency, addPartial, soundingPitch, hpitch, bind,
        Except.bind, Except.map]
    | ok pitch =>
      have hall (level : Nat → Float) (partials : List Partial) :
          addFrequency w partials n ((List.range n).map level) frequency =
            .ok ((List.range n).map fun i =>
              addPartials w partials (pitch i) (timeOf i) (level i)) := by
        induction partials generalizing level with
        | nil => rfl
        | cons p partials ih =>
          rw [addFrequency, List.foldlM_cons, add_partial_eq w n hpitch]
          exact ih _
      rw [hall, soundingPitch, hpitch]
      rfl

theorem mix_eq (partials : List Partial) (frequencies : List Value) :
    mix w partials frequencies n =
      (frequencies.mapM (soundingPitch w partials n)).map fun pitches =>
        (List.range n).map (chordLevel w partials pitches) := by
  have hall (level : Nat → Float) :
      frequencies.foldlM (addFrequency w partials n) ((List.range n).map level) =
        (frequencies.mapM (soundingPitch w partials n)).map fun pitches =>
          (List.range n).map fun i =>
            pitches.foldl (fun sum p => addPartials w partials (p i) (timeOf i) sum) (level i) := by
    induction frequencies generalizing level with
    | nil => rfl
    | cons frequency frequencies ih =>
      rw [List.foldlM_cons, add_frequency_eq, List.mapM_cons]
      cases soundingPitch w partials n frequency with
      | error f => rfl
      | ok pitch =>
        refine (ih _).trans ?_
        cases frequencies.mapM (soundingPitch w partials n) with
        | error f => rfl
        | ok pitches => rfl
  have hzero : List.replicate n (0.0 : Float) = (List.range n).map fun _ => 0.0 := by
    rw [List.map_const', List.length_range]
  rw [mix, hzero, hall]
  rfl

end Mix

/-- The stages are reduced one after another, and the first that is beyond doubles stops it. -/
theorem reduce_each (ratio : Float) (s : Stages) :
    (do
      let attack ← reduce ratio s.attack
      let decay ← reduce ratio s.decay
      let release ← reduce ratio s.release
      return (attack, decay, release)) =
      if s.exceedsDoubles then Except.error Fault.integerOverflow
      else .ok (Stages.scale ratio s.attack, Stages.scale ratio s.decay,
        Stages.scale ratio s.release) := by
  simp only [reduce, Stages.exceedsDoubles, List.any_cons, List.any_nil, Bool.or_false]
  cases (Number.ofInt s.attack).isInf with
  | true => rfl
  | false =>
  cases (Number.ofInt s.decay).isInf with
  | true => rfl
  | false =>
  cases (Number.ofInt s.release).isInf with
  | true => rfl
  | false => rfl

theorem shorten_eq (n : Int) (s : Stages) :
    shorten n s.attack s.decay s.release =
      (s.fit n).map fun s => (s.attack, s.decay, s.release) := by
  have hreduce := reduce_each (Number.ofQuotient n s.total) s
  unfold shorten Stages.fit
  by_cases hlong : n < s.total
  · simp only [if_pos hlong, if_pos (show n < s.attack + s.decay + s.release from hlong)]
    by_cases hzero : s.total = 0
    · simp only [if_pos hzero, if_pos (show s.attack + s.decay + s.release = 0 from hzero)]
      rfl
    · simp only [if_neg hzero, if_neg (show ¬ s.attack + s.decay + s.release = 0 from hzero)]
      cases hratio : (Number.ofQuotient n s.total).isInf with
      | true =>
        simp only [show (Number.ofQuotient n (s.attack + s.decay + s.release)).isInf =
          true from hratio]
        rfl
      | false =>
        simp only [show (Number.ofQuotient n (s.attack + s.decay + s.release)).isInf =
          false from hratio]
        refine hreduce.trans ?_
        cases s.exceedsDoubles with
        | true => rfl
        | false => simp only [Stages.fitBy, if_pos hlong]; rfl
  · simp only [if_neg hlong, if_neg (show ¬ n < s.attack + s.decay + s.release from hlong)]
    rfl

theorem lengths_eq (e : Envelope Value) (n : Int) :
    lengths e n =
      (stagesOf e >>= Stages.fit n).map fun s => (s.attack, s.decay, s.release) := by
  unfold lengths stagesOf
  cases sampleCount e.attack with
  | error f => rfl
  | ok attack =>
  cases sampleCount e.decay with
  | error f => rfl
  | ok decay =>
  cases sampleCount e.release with
  | error f => rfl
  | ok release => exact shorten_eq n ⟨attack, decay, release⟩

theorem gains_eq (sustain : Value) (n : Nat) (attack decay release : Int) :
    gains sustain n attack decay release =
      (⟨attack, decay, release⟩ : Stages).levels ramp 0.0 1.0 (sustainedOf sustain) n := by
  have hstretch (start length : Int) (levels : Except Fault (Grid Float)) (xs : List Float) :
      Stages.write start length levels xs = stretch length start (start + length) levels xs := rfl
  simp only [gains, Stages.levels, hstretch, Stages.total, Int.zero_add]
  rfl

theorem render_eq (w : Waveform) (partials : List Partial) (e : Envelope Value)
    (frequencies : List Value) (seconds volume : Value) :
    render w partials e frequencies seconds volume =
      Sound.render (fun n => do
        return chordLevel w partials (← frequencies.mapM (soundingPitch w partials n)))
        e seconds volume := by
  have hok {α β : Type} (a : α) (f : α → Except Fault β) : (Except.ok a >>= f) = f a := rfl
  unfold render Sound.render
  cases sampleCount seconds with
  | error f => rfl
  | ok n =>
  simp only [lengths_eq, mix_eq, gains_eq, hok]
  cases stagesOf e with
  | error f => rfl
  | ok stages =>
  simp only [hok]
  cases stages.fit n with
  | error f => rfl
  | ok stages =>
  simp only [hok, Except.map]
  by_cases hneg : n < 0
  · simp only [if_pos hneg]
    rfl
  simp only [if_neg hneg]
  cases frequencies.mapM (soundingPitch w partials n.toNat) with
  | error f => rfl
  | ok pitches =>
  simp only [hok, pure_bind]
  generalize (List.range n.toNat).map (chordLevel w partials pitches) = raw
  unfold normalise
  cases raw.isEmpty with
  | true => rfl
  | false =>
    simp only [Bool.false_eq_true, if_false, pure_bind, List.zipWith_map_left]

end Chord

end Melody.Sound

namespace Melody.Sound.Engine

open Act

def noteLevels (e : Engine) (frequency : Value) (n : Nat) : Except Fault (Nat → Float) := do
  return noteLevel e.waveform e.partials (← soundingPitch e.waveform e.partials n frequency)

def chordLevels (e : Engine) (frequencies : List Value) (n : Nat) : Except Fault (Nat → Float) := do
  return chordLevel e.waveform e.partials
    (← frequencies.mapM (soundingPitch e.waveform e.partials n))

def sounding (levels : Engine → Nat → Except Fault (Nat → Float)) (seconds volume : Value) :
    Act Engine Unit := do
  let e ← read
  start (← ofExcept (render (levels e) e.envelope seconds volume)) seconds

theorem play_note_eq (frequency seconds volume : Value) :
    playNote frequency seconds volume = sounding (fun e => e.noteLevels frequency) seconds volume :=
  rfl

theorem play_chord_eq (frequencies : List Value) (seconds volume : Value) :
    playChord frequencies seconds volume =
      sounding (fun e => e.chordLevels frequencies) seconds volume := by
  funext e
  unfold playChord sounding
  rw [read_bind, read_bind, Chord.render_eq]
  change (ofExcept (render (e.chordLevels frequencies) e.envelope seconds volume) >>= _) e =
    (ofExcept (render (e.chordLevels frequencies) e.envelope seconds volume) >>= _) e
  cases render (e.chordLevels frequencies) e.envelope seconds volume with
  | error f => rfl
  | ok channels =>
  simp only [of_except_bind, start, read_bind]
  cases sleepLength seconds with
  | error f => rfl
  | ok length =>
  simp only [of_except_bind]
  cases e.parallel.isTrue || e.temporary with
  | true => rfl
  | false => rfl

/-- One frequency gives the same levels, or the same fault, on both paths. -/
theorem chord_levels_single (e : Engine) (frequency : Value) :
    e.chordLevels [frequency] = e.noteLevels frequency := by
  funext n
  unfold chordLevels noteLevels
  cases hpitch : soundingPitch e.waveform e.partials n frequency with
  | error fault => simp [List.mapM_cons, hpitch, bind, Except.bind]
  | ok pitch =>
    simp [List.mapM_cons, hpitch, bind, Except.bind, pure, Except.pure]
    rfl

theorem play_chord_single (frequency seconds volume : Value) :
    playChord [frequency] seconds volume = playNote frequency seconds volume := by
  rw [play_chord_eq, play_note_eq]
  simp only [chord_levels_single]

/-- The path of the chords serves for every list of frequencies. -/
theorem play_eq_chord (frequencies : List Value) (seconds volume : Value) :
    play frequencies seconds volume = playChord frequencies seconds volume := by
  unfold play
  split
  · rw [play_chord_single]
  · rfl

theorem play_eq (frequencies : List Value) (seconds volume : Value) :
    play frequencies seconds volume =
      sounding (fun e => e.chordLevels frequencies) seconds volume :=
  (play_eq_chord frequencies seconds volume).trans (play_chord_eq frequencies seconds volume)

theorem play_value_frequency {frequency : Value} (h : isList frequency = false)
    (seconds volume : Value) :
    playValue frequency seconds volume = playNote frequency seconds volume := by
  cases frequency with
  | list items => cases h
  | _ => rfl

/-- Whatever the engine is set to, a frequency, the list of it and the chord of it are played
alike: with the same samples, events and faults, and with the same engine afterwards. -/
theorem one_note_chord (frequency seconds volume : Value) (e : Engine) :
    playChord [frequency] seconds volume e = playNote frequency seconds volume e ∧
      playValue (.list [frequency]) seconds volume e = playNote frequency seconds volume e ∧
      (isList frequency = false →
        playValue frequency seconds volume e = playNote frequency seconds volume e) ∧
      ∀ frequencies,
        playValue (.list frequencies) seconds volume e =
          playChord frequencies seconds volume e := by
  refine ⟨?_, rfl, ?_, ?_⟩
  · rw [play_chord_single]
  · intro h
    rw [play_value_frequency h]
  · intro frequencies
    rw [← play_eq_chord]
    rfl

def startedSamples : Event → Option (Nat × Nat)
  | .started sound => some (sound.left.length, sound.right.length)
  | _ => none

/-- The concert pitch for half a millisecond, alone and as a chord: an engine that nothing was set
in starts a sound of 22 samples and waits for it. -/
theorem concert_pitch_alike :
    isList (.float 440.0) = false ∧
      (playChord [.float 440.0] (.float 0.0005) usualVolume {}).events.map startedSamples =
        [some (22, 22), none] ∧
      (playChord [.float 440.0] (.float 0.0005) usualVolume {}).outcome.isOk = true ∧
      playValue (.float 440.0) (.float 0.0005) usualVolume {} =
        playChord [.float 440.0] (.float 0.0005) usualVolume {} := by
  obtain ⟨hchord, -, hvalue, -⟩ := one_note_chord (.float 440.0) (.float 0.0005) usualVolume {}
  exact ⟨rfl, by decide +kernel, by decide +kernel, (hvalue rfl).trans hchord.symm⟩

end Melody.Sound.Engine
