import Mathlib.Data.List.Forall2
import Melody.Program.Load

/-!
# Two programs that load side by side

Loading reads what it defined before only to read the melodies, and then only chords and
functions. The debug mode, the complaints on record, the instrument and the switch for parallel
playing stand in the margin: two programs that differ there, and two texts that define the same,
load side by side.
-/

set_option autoImplicit false

namespace Melody.Program

open Melody.Text

def Agree (R : Program → Program → Prop) (step step' : Program → Loaded) : Prop :=
  ∀ p q, R p q → R (step p).program (step' q).program ∧ (step p).fault = (step' q).fault

theorem agree_run {R : Program → Program → Prop} {steps steps' : List (Program → Loaded)}
    (h : List.Forall₂ (Agree R) steps steps') : Agree R (Loaded.run steps) (Loaded.run steps') := by
  induction h with
  | nil => exact fun p q hR => ⟨hR, rfl⟩
  | @cons step step' rest rest' hstep _ ih =>
    intro p q hR
    obtain ⟨hprogram, hfault⟩ := hstep p q hR
    simp only [Loaded.run, Loaded.andThen, ← hfault]
    split
    · exact ⟨hprogram, hfault⟩
    · exact ih _ _ hprogram

structure Margin where
  debug : Bool
  complaints : List String
  instrument : String
  parallel : Bool

def margin (p : Program) : Margin :=
  ⟨p.debug, p.complaints, p.instrument, p.parallel⟩

def within (p : Program) (m : Margin) : Program :=
  { p with
    debug := m.debug
    complaints := m.complaints
    instrument := m.instrument
    parallel := m.parallel }

def Alongside (P : Margin → Margin → Prop) (p q : Program) : Prop :=
  ∃ m, P p.margin m ∧ q = p.within m

def Unswayed (step : Program → Loaded) : Prop :=
  ∀ p m, (step (p.within m)).program = (step p).program.within m ∧
    (step (p.within m)).fault = (step p).fault ∧ (step p).program.margin = p.margin

theorem Unswayed.agree {P : Margin → Margin → Prop} {step : Program → Loaded} (h : Unswayed step) :
    Agree (Alongside P) step step := by
  rintro p q ⟨m, hP, rfl⟩
  obtain ⟨hprogram, hfault, hmargin⟩ := h p m
  exact ⟨⟨m, by rw [hmargin]; exact hP, hprogram⟩, hfault.symm⟩

theorem unswayed_each {α : Type} {items : List α} {step : α → Program → Loaded}
    (h : ∀ item, Unswayed (step item)) : Unswayed (Loaded.run (items.map step)) := by
  induction items with
  | nil => exact fun p m => ⟨rfl, rfl, rfl⟩
  | cons item items ih =>
    intro p m
    obtain ⟨hprogram, hfault, hmargin⟩ := h item p m
    rw [List.map_cons]
    simp only [Loaded.run, Loaded.andThen, hfault]
    split
    · exact ⟨hprogram, hfault, hmargin⟩
    · dsimp only
      rw [hprogram, ← hmargin]
      exact ih _ m

theorem unswayed_tempo (cs : List Char) : Unswayed (setTempo cs) := by
  intro p m
  unfold setTempo
  repeat' split
  all_goals exact ⟨rfl, rfl, rfl⟩

theorem unswayed_envelope (cs : List Char) : Unswayed (setEnvelope cs) := by
  intro p m
  unfold setEnvelope
  repeat' split
  all_goals exact ⟨rfl, rfl, rfl⟩

theorem unswayed_waveform (cs : List Char) : Unswayed (setWaveform cs) := by
  intro p m
  unfold setWaveform
  split <;> exact ⟨rfl, rfl, rfl⟩

theorem unswayed_chords (cs : List Char) : Unswayed (addChords cs) :=
  unswayed_each fun _ _ _ => ⟨rfl, rfl, rfl⟩

theorem unswayed_functions (cs : List Char) : Unswayed (addFunctions cs) :=
  unswayed_each fun _ _ _ => ⟨rfl, rfl, rfl⟩

/-- Melodies are read with the chords and functions, which are not in the margin. -/
theorem unswayed_melodies (cs : List Char) : Unswayed (addMelodies cs) := by
  apply unswayed_each
  intro found p m
  unfold addMelody
  split <;> exact ⟨rfl, rfl, rfl⟩

structure DefineSame (cs cs' : List Char) : Prop where
  tempo : findTempo cs = findTempo cs'
  envelope : searchFirst envelope? cs = searchFirst envelope? cs'
  waveform : searchFirst waveform? cs = searchFirst waveform? cs'
  chords : addChords cs = addChords cs'
  functions : addFunctions cs = addFunctions cs'
  melodies : addMelodies cs = addMelodies cs'

theorem define_alongside {P : Margin → Margin → Prop} {cs cs' : List Char} (h : DefineSame cs cs')
    (hparallel : Agree (Alongside P) (setParallel cs) (setParallel cs'))
    (hinstrument : Agree (Alongside P) (setInstrument cs) (setInstrument cs')) :
    Agree (Alongside P) (define cs) (define cs') := by
  have htempo : setTempo cs = setTempo cs' := by
    unfold setTempo
    rw [h.tempo]
  have henvelope : setEnvelope cs = setEnvelope cs' := by
    unfold setEnvelope
    rw [h.envelope]
  have hwaveform : setWaveform cs = setWaveform cs' := by
    unfold setWaveform
    rw [h.waveform]
  apply agree_run
  refine .cons ?_ (.cons hparallel (.cons ?_ (.cons hinstrument (.cons ?_ (.cons ?_ (.cons ?_
    (.cons ?_ (.cons ?_ .nil))))))))
  · exact fun p q hR => ⟨hR, rfl⟩
  · rw [htempo]
    exact (unswayed_tempo cs').agree
  · rw [henvelope]
    exact (unswayed_envelope cs').agree
  · rw [hwaveform]
    exact (unswayed_waveform cs').agree
  · rw [h.chords]
    exact (unswayed_chords cs').agree
  · rw [h.functions]
    exact (unswayed_functions cs').agree
  · rw [h.melodies]
    exact (unswayed_melodies cs').agree

end Melody.Program
