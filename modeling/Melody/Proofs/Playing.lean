import Mathlib.Data.List.Basic
import Melody.Proofs.Arguments
import Melody.Proofs.Replacing

/-!
# Why typed commands without blocks halt

Notes, chords and pauses turn a fault in a value into an exit. What remains is an octave, the tempo
or the stages of an envelope. The settings of the engine never halt, and a condition halts if its
sign of comparison stands in it more than once.
-/

set_option autoImplicit false

namespace Melody.Performance

open Text Act

section Plain

open Command

variable {program : Program} {V : Vocabulary} {E : Halt → Prop} (hV : Covers program V E)
  {p : Performer} (hp : Sane V program p)

/-- Faults in a value become an exit, other reasons remain. -/
theorem meets_stop {E' : Halt → Prop} (reason : String) {m : Performance Unit}
    {Q : Unit → Performer → Prop} (h : m.Meets p E' Q)
    (hbad : ∀ f, E' (.fault f) → f.isBadValue = true → E (.exit 1))
    (hother : ∀ r, E' r → (∀ f, r = .fault f → f.isBadValue = false) → E r) :
    (stopOnBadValue reason m).Meets p E Q := by
  refine ⟨?_, ensures_stop reason m h.2⟩
  intro r hr
  unfold stopOnBadValue at hr
  dsimp only at hr
  split at hr
  · rename_i f hfault
    split_ifs at hr with hf
    · cases hr
      exact hbad f (h.1 _ hfault) hf
    · cases hfault.symm.trans hr
      apply hother _ (h.1 _ hfault)
      rintro g ⟨⟩
      simpa using hf
  · rename_i hnone
    apply hother r (h.1 r hr)
    rintro f rfl
    exact absurd hr (hnone f)

def OrBadValue (E : Halt → Prop) (h : Halt) : Prop :=
  (∃ f, h = .fault f ∧ f.isBadValue = true) ∨ E h

theorem meets_reported (hexit : E (.exit 1)) (reason : String) {m : Performance Unit}
    {Q : Unit → Performer → Prop} (h : m.Meets p (OrBadValue E) Q) :
    (stopOnBadValue reason m).Meets p E Q := by
  apply meets_stop reason h
  · intro _ _ _
    exact hexit
  · rintro r (⟨f, rfl, hf⟩ | hE) hgood
    · rw [hgood f rfl] at hf
      cases hf
    · exact hE

theorem meets_debug (line : String) {Q : Unit → Performer → Prop} :
    (sayIfDebug line).Meets p E Q ↔ Q () p := by
  unfold sayIfDebug
  rw [meets_bind, meets_read]
  split
  · exact meets_say line
  · exact meets_pure ()

theorem meets_instrument_name {Q : String → Performer → Prop} :
    instrumentName.Meets p E Q ↔ Q p.engine.instrument.name p := by
  unfold instrumentName
  rw [meets_bind, meets_read, meets_pure]

include hp

/-- A chord plays the notes it has, or those of a variable with its name. -/
theorem chord_notes_meets {name : Slot} {notes : Value} (hname : name = none ∨ IsText name)
    (hnotes : V.IsChord notes) :
    (chordNotes name notes).Meets p E fun v q => p = q ∧ V.IsChord v := by
  rcases hname with rfl | ⟨s, rfl, -⟩
  · exact (meets_pure _).mpr ⟨rfl, hnotes⟩
  · unfold chordNotes
    dsimp only
    split
    · rw [meets_bind, hp.meets_lookup]
      split
      · rename_i items hfind
        rw [meets_pure]
        rcases hp.held hfind with ⟨t, h, -⟩ | ⟨n, h⟩ | hchord | ⟨t, a, h, -⟩
        · cases h
        · cases h
        · exact ⟨rfl, hchord⟩
        · cases h
      · exact (meets_pure _).mpr ⟨rfl, hnotes⟩
    · exact (meets_pure _).mpr ⟨rfl, hnotes⟩

theorem set_envelope_meets {attack decay sustain release : Slot} {depth : Nat}
    (h : Typed V (.envelope attack decay sustain release) depth) :
    (setEnvelope attack decay sustain release).Meets p E fun _ q => Sane V program q := by
  obtain ⟨new, hnew, rfl, rfl, rfl, rfl⟩ := h
  unfold setEnvelope
  rw [meets_bind]
  apply (hp.sound (E := E) _).mono
  · intro _ q hq
    rw [meets_bind, meets_read, meets_bind, meets_instrument_name, meets_say]
    exact hq
  · intro shape _ htuned
    exact (htuned.envelope_given new).mono fun _ e he => ⟨new, hnew, he⟩

theorem set_waveform_meets {name : Slot} (h : IsText name) :
    (setWaveform name).Meets p E fun _ q => Sane V program q := by
  obtain ⟨s, rfl, -⟩ := h
  unfold setWaveform
  rw [meets_bind, meets_need, meets_bind]
  apply (hp.sound_tuned (E := E) fun shape htuned => htuned.waveform s).mono
  intro _ q hq
  rw [meets_bind, meets_read, meets_bind, meets_instrument_name, meets_say]
  exact hq

include hV

theorem duration_meets (name : String) {Q : Float → Performer → Prop}
    (hq : ∀ x, Theory.seconds name program.tempo = .ok x → Q x p) :
    (durationSeconds (.text name)).Meets p (OrBadValue E) Q := by
  unfold durationSeconds
  rw [meets_bind, meets_read, hp.tempo, meets_of_except]
  constructor
  · intro f hf
    rcases Theory.seconds_error hf with hbad | hbeat
    · exact .inl ⟨f, rfl, hbad⟩
    · exact .inr (hV.beat hbeat)
  · exact hq

theorem play_meets {name : String} {seconds : Float}
    (hseconds : Theory.seconds name program.tempo = .ok seconds) (frequencies : List Float) :
    (sound (Sound.Engine.play (frequencies.map .float) (.float seconds)
      Sound.Engine.usualVolume)).Meets p (OrBadValue E) fun _ q => Sane V program q := by
  apply hp.sound
  intro shape hshape htuned
  have hstages (f : Fault) (hf : Sound.stageLengths shape seconds = .error f) :
      OrBadValue E (.fault f) := by
    cases hbad : f.isBadValue with
    | true => exact .inl ⟨f, rfl, hbad⟩
    | false => exact .inr (hV.stages hshape hseconds hf hbad)
  apply (htuned.play (fun f hf => .inl ⟨f, rfl, hf⟩) hstages frequencies).mono
  intro _ e he
  exact ⟨shape, hshape, he⟩

theorem play_note_meets {note accidental duration : Slot} {depth : Nat}
    (h : Typed V (.play note accidental duration) depth) :
    (playNote note accidental duration).Meets p E fun _ q => Sane V program q := by
  obtain ⟨⟨s, rfl, hs⟩, ⟨sign, rfl, hsign⟩, d, rfl, -⟩ := h
  unfold playNote
  rw [meets_bind, meets_need, meets_bind, meets_need, meets_bind, meets_need]
  apply meets_reported hV.reported
  rw [meets_bind, meets_of_except]
  constructor
  · intro f hf
    rcases Theory.note_error hsign hf with hbad | ⟨rfl, hhigh⟩
    · exact .inl ⟨f, rfl, hbad⟩
    · exact .inr (hV.pitch hs hhigh)
  · intro frequency _
    rw [meets_bind]
    apply duration_meets hV hp d
    intro seconds hseconds
    rw [meets_bind, meets_instrument_name, meets_bind, meets_say]
    exact play_meets hV hp hseconds [frequency]

omit hp in
/-- The pitches of a chord fail for a fault in a value or for an octave. -/
theorem pitches_error {notes : List Value} {f : Fault} (hnotes : ∀ v ∈ notes, V.IsNote v)
    (h : chordPitches notes = .error f) : OrBadValue E (.fault f) := by
  induction notes with
  | nil => cases h
  | cons v rest ih =>
    obtain ⟨name, accidental, rfl, hname⟩ := hnotes v (by simp)
    obtain ⟨sign, hfield, hsign⟩ := note_accidental name accidental
    rw [chordPitches, note_name, hfield] at h
    change (Theory.noteFrequency (.text (String.ofList name)) sign >>= _) = .error f at h
    rcases bind_error h with h | ⟨frequency, -, h⟩
    · rcases Theory.note_error hsign h with hbad | ⟨rfl, hhigh⟩
      · exact .inl ⟨f, rfl, hbad⟩
      · exact .inr (hV.pitch hname hhigh)
    · rcases bind_error h with h | ⟨pitches, -, h⟩
      · exact ih (fun v hv => hnotes v (by simp [hv])) h
      · cases h

theorem play_chord_meets {name notes duration : Slot} {depth : Nat}
    (h : Typed V (.playChord name notes duration) depth) :
    (playChord name notes duration).Meets p E fun _ q => Sane V program q := by
  obtain ⟨hname, ⟨v, rfl, hv⟩, d, rfl, -⟩ := h
  unfold playChord
  rw [meets_bind, meets_need, meets_bind, meets_need]
  apply meets_reported hV.reported
  rw [meets_bind]
  apply (chord_notes_meets hp hname hv).mono
  rintro _ _ ⟨rfl, items, rfl, hitems⟩
  rw [meets_bind]
  apply duration_meets hV hp d
  intro seconds hseconds
  change (ofExcept (chordPitches items) >>= _ : Performance Unit).Meets p _ _
  rw [meets_bind, meets_of_except]
  constructor
  · intro f hf
    exact pitches_error hV hitems hf
  · intro pitches _
    rw [meets_bind, meets_instrument_name, meets_bind, meets_say]
    have hfrequencies : pitches.map (fun p => Value.float p.1) =
        (pitches.map fun p => p.1).map .float := by simp
    rw [hfrequencies]
    exact play_meets hV hp hseconds _

theorem pause_meets {duration : Slot} (h : IsText duration) :
    (pause duration).Meets p E fun _ q => Sane V program q := by
  obtain ⟨d, rfl, -⟩ := h
  unfold pause
  rw [meets_bind, meets_need]
  apply meets_reported hV.reported
  rw [meets_bind]
  apply duration_meets hV hp d
  intro seconds _
  rw [meets_bind, meets_instrument_name, meets_bind, meets_say]
  apply hp.sound_tuned
  intro shape htuned
  exact htuned.sleep fun _ => .inl ⟨_, rfl, rfl⟩

omit hV in
theorem choose_instrument_meets (hclosed : Closed program V) (name : String) :
    (sound (Sound.Engine.chooseInstrument (.text name))).Meets p E fun _ q =>
      Sane V program q := by
  apply hp.sound
  intro shape hshape htuned
  apply (htuned.instrument name).mono
  rintro _ e (he | ⟨i, he⟩)
  · exact ⟨shape, hshape, he⟩
  · exact ⟨i.timbre.envelope, hclosed.timbre i, he⟩

theorem set_instrument_meets {name : Slot} (h : IsText name) :
    (setInstrument name).Meets p E fun _ q => Sane V program q := by
  obtain ⟨s, rfl, -⟩ := h
  unfold setInstrument
  rw [meets_bind, meets_need]
  dsimp only
  rw [meets_bind]
  apply (choose_instrument_meets hp hV.toClosed s).mono
  intro known q hq
  cases known with
  | true => exact (meets_say _).mpr hq
  | false => exact (meets_say _).mpr hq

end Plain

section Conditions

variable {program : Program} {V : Vocabulary} {E : Halt → Prop} (hV : Covers program V E)
  {p : Performer} (hp : Sane V program p)

include hp

theorem operand_meets (cs : List Char) : (operand cs).Meets p E fun _ q => p = q := by
  unfold operand
  dsimp only
  rw [meets_bind, hp.meets_lookup]
  repeat' split
  all_goals exact (meets_pure _).mpr rfl

theorem compare_meets {sign cs : List Char} (hsign : sign ≠ []) (hoccurs : occurs sign cs = true)
    (h : 2 < (splitText sign cs).length → E (.fault .tooManyParts)) :
    (compare sign cs).Meets p E fun _ q => p = q := by
  unfold compare
  split
  · rw [meets_bind]
    apply (operand_meets hp _).mono
    rintro a _ rfl
    rw [meets_bind]
    apply (operand_meets hp _).mono
    rintro b _ rfl
    exact (meets_pure _).mpr rfl
  · rename_i hother
    -- a sign that occurs gives two parts at least
    have hsome := split_occurs hsign hoccurs
    have htwo : (splitText sign cs).length ≠ 2 := by
      intro htwo
      obtain ⟨left, right, hsplit⟩ := List.length_eq_two.mp htwo
      exact hother left right hsplit
    rw [meets_fail]
    exact h (by omega)

include hV

theorem holds_meets {s : String} (hs : V.condition s) :
    (holds (.text s)).Meets p E fun _ q => p = q := by
  have hsides := @hV.sides s
  unfold sidesOf at hsides
  unfold holds
  dsimp only
  split_ifs with hequal hunequal
  · apply compare_meets hp (by decide) hequal
    intro hcount
    exact hsides hs (if_pos hequal) hcount
  · rw [meets_bind]
    apply (compare_meets hp (by decide) hunequal _).mono
    · rintro b _ rfl
      exact (meets_pure _).mpr rfl
    · intro hcount
      exact hsides hs ((if_neg hequal).trans (if_pos hunequal)) hcount
  · unfold warnCondition
    rw [meets_bind, meets_say]
    exact (meets_pure _).mpr rfl

end Conditions

end Melody.Performance
