import Melody.Proofs.Watchers

/-!
# The voice of the engine

The instrument, the waveform and the partials stand in three fields that different operations write,
with rules of their own for names that are unknown. Together they are the engine's voice. Of all
that can happen to an engine, accepted, refused or broken off, only the choice of an instrument and
that of a waveform touch it. So each field holds what was chosen for it last, and the partials never
belong to another instrument than the one that is named.
-/

set_option autoImplicit false

namespace Melody.Sound

structure Voice where
  instrument : Instrument
  waveform : Waveform
  partials : List Partial

def Engine.voice (e : Engine) : Voice :=
  ⟨e.instrument, e.waveform, e.partials⟩

theorem Instrument.of_name_iff {name : String} {i : Instrument} :
    Instrument.ofName? name = some i ↔ name = i.name := by
  constructor
  · intro h
    have hname := List.find?_some h
    exact (beq_iff_eq.mp hname).symm
  · rintro rfl
    cases i <;> decide

theorem Waveform.of_own_name (w : Waveform) : Waveform.ofName? w.name = some w := by
  cases w <;> decide +kernel

inductive Move where
  | operate (op : Operation)
  | await
  | fire (w : Watcher)

namespace Move

def after (e : Engine) : Move → Engine
  | operate op => (op.act e).state
  | await => (Engine.awaitSounds e).state
  | fire w => e.fire w

def instrument? : Move → Option Instrument
  | operate (.chooseInstrument (.text name)) => Instrument.ofName? name
  | _ => none

def waveform? : Move → Option Waveform
  | operate (.chooseWaveform (.text name)) => some ((Waveform.ofName? name).getD .sine)
  | m => m.instrument?.map fun i => i.timbre.waveform

def voiced (v : Voice) (m : Move) : Voice where
  instrument := m.instrument?.getD v.instrument
  waveform := m.waveform?.getD v.waveform
  partials := (m.instrument?.map fun i => i.timbre.partials).getD v.partials

theorem waveform_with_instrument (name : Value) :
    (operate (.chooseInstrument name)).waveform? =
      (operate (.chooseInstrument name)).instrument?.map fun i => i.timbre.waveform :=
  rfl

end Move

namespace Engine

open Act

def afterMoves (moves : List Move) (e : Engine) : Engine :=
  moves.foldl Move.after e

theorem voice_fires (ws : List Watcher) (e : Engine) : (ws.foldl fire e).voice = e.voice := by
  induction ws generalizing e with
  | nil => rfl
  | cons w ws ih => exact ih (e.fire w)

theorem voice_sleep (seconds : Value) (e : Engine) :
    (sleep seconds e).state.voice = e.voice := by
  rcases sleep_cases seconds e with hsleep | ⟨stop, patience, hsleep⟩
  · exact congrArg voice (hsleep e.watchers).1
  · have hstate := congrArg voice (hsleep e.watchers).1
    exact hstate.trans (voice_fires _ e)

theorem voice_start (channels : List Int16 × List Int16) (seconds : Value) (e : Engine) :
    (start channels seconds e).state.voice = e.voice := by
  unfold start
  rw [read_bind]
  cases sleepLength seconds with
  | error f => rfl
  | ok length =>
    rw [of_except_bind]
    split
    · rfl
    · exact voice_sleep seconds { e with sounds := e.sounds + 1 }

theorem voice_rendered (rendered : Except Fault (List Int16 × List Int16)) (seconds : Value)
    (e : Engine) :
    ((do start (← ofExcept rendered) seconds : Act Engine Unit) e).state.voice = e.voice := by
  cases rendered with
  | error f => rfl
  | ok channels => exact voice_start channels seconds e

theorem voice_play (frequencies : List Value) (seconds volume : Value) (e : Engine) :
    (play frequencies seconds volume e).state.voice = e.voice := by
  rw [play_eq]
  exact voice_rendered _ seconds e

theorem voice_restore (e : Engine) : (restoreMode e).state.voice = e.voice := by
  have hsaved (saved : List Value) :
      (restoreMode { e with saved := saved }).state.voice = e.voice := by
    cases saved with
    | nil => rfl
    | cons mode rest => rfl
  exact hsaved e.saved

theorem voice_wait (n : Nat) (e : Engine) : (waitWithin n e).state.voice = e.voice := by
  induction n generalizing e with
  | zero => rfl
  | succ n ih =>
    unfold waitWithin
    rw [read_bind]
    split
    · rfl
    · cases hok : (sleep glance e).outcome with
      | error halt =>
        rw [bind_of_error hok]
        exact voice_sleep glance e
      | ok _ =>
        rw [bind_of_ok hok]
        exact (ih _).trans (voice_sleep glance e)

theorem text_of_instrument {name : Value} {i : Instrument} (h : instrument? name = .ok (some i)) :
    name = .text i.name := by
  cases name with
  | text s =>
    have hfound : Instrument.ofName? s = some i := Except.ok.inj h
    rw [Instrument.of_name_iff.mp hfound]
  | _ => cases h

/-- A known name brings the instrument with its whole timbre. Any other value leaves the engine as
it was, whether it is refused or cannot be looked up. -/
theorem choose_instrument_cases (name : Value) (e : Engine) :
    (∃ i : Instrument, name = .text i.name ∧ (chooseInstrument name e).outcome = .ok true ∧
        (chooseInstrument name e).state = { e.useTimbre i.timbre with instrument := i }) ∨
      (∀ i : Instrument, name ≠ .text i.name) ∧
        ((chooseInstrument name e).outcome = .ok false ∨
          ∃ f, (chooseInstrument name e).outcome = .error (.fault f)) ∧
        (chooseInstrument name e).state = e := by
  unfold chooseInstrument
  cases hfound : instrument? name with
  | error f =>
    refine .inr ⟨?_, .inr ⟨f, rfl⟩, rfl⟩
    rintro i rfl
    cases hfound
  | ok found =>
    cases found with
    | none =>
      refine .inr ⟨?_, .inl rfl, rfl⟩
      rintro i rfl
      have hnone : Instrument.ofName? i.name = none := Except.ok.inj hfound
      rw [Instrument.of_name_iff.mpr rfl] at hnone
      cases hnone
    | some i => exact .inl ⟨i, text_of_instrument hfound, rfl, rfl⟩

theorem voice_instrument (name : Value) (e : Engine) :
    (chooseInstrument name e).state.voice =
      (Move.operate (.chooseInstrument name)).voiced e.voice := by
  rcases choose_instrument_cases name e with ⟨i, rfl, -, hstate⟩ | ⟨hunknown, -, hstate⟩
  · have hchosen : (Move.operate (.chooseInstrument (.text i.name))).instrument? = some i :=
      Instrument.of_name_iff.mpr rfl
    rw [hstate, Move.voiced, Move.waveform_with_instrument, hchosen]
    rfl
  · have hchosen : (Move.operate (.chooseInstrument name)).instrument? = none := by
      cases name with
      | text s =>
        refine Option.eq_none_iff_forall_ne_some.mpr fun i hi => hunknown i ?_
        rw [Instrument.of_name_iff.mp hi]
      | _ => rfl
    rw [hstate, Move.voiced, Move.waveform_with_instrument, hchosen]
    rfl

/-- A waveform is always found, unless the name is no text. -/
theorem voice_waveform (name : Value) (e : Engine) :
    (chooseWaveform name e).state.voice =
      (Move.operate (.chooseWaveform name)).voiced e.voice := by
  cases name with
  | text s =>
    unfold chooseWaveform Move.voiced Move.waveform?
    dsimp only
    cases Waveform.ofName? s with
    | none => rfl
    | some w => rfl
  | _ => rfl

/-- An answer that is not looked at leaves the state as it is. -/
theorem state_discard {α : Type} (m : Act Engine α) (e : Engine) :
    ((do let _ ← m : Act Engine Unit) e).state = (m e).state := by
  cases hout : (m e).outcome with
  | error halt => rw [bind_of_error hout]
  | ok a => rw [bind_of_ok hout]; rfl

theorem voice_after (m : Move) (e : Engine) : (m.after e).voice = m.voiced e.voice := by
  cases m with
  | fire w => rfl
  | await => exact voice_wait _ e
  | operate op =>
    cases op with
    | play frequencies seconds volume => exact voice_play frequencies seconds volume e
    | pause seconds => exact voice_sleep seconds e
    | restoreMode => exact voice_restore e
    | chooseInstrument name =>
      have hstate : Move.after e (.operate (.chooseInstrument name)) =
          (chooseInstrument name e).state :=
        state_discard (chooseInstrument name) e
      rw [hstate]
      exact voice_instrument name e
    | chooseWaveform name => exact voice_waveform name e
    | setParallel | saveMode | setTemporary | chooseEnvelope | stopSounds => rfl

/-- A field that each move either sets or leaves holds what the last move to set it chose. -/
theorem field_after_moves {α : Type} (field : Engine → α) (chosen : Move → Option α)
    (hstep : ∀ m e, field (Move.after e m) = (chosen m).getD (field e)) (moves : List Move)
    (e : Engine) :
    field (afterMoves moves e) = (moves.filterMap chosen).getLast?.getD (field e) := by
  induction moves generalizing e with
  | nil => rfl
  | cons m moves ih =>
    have hrest : field (afterMoves (m :: moves) e) =
        (moves.filterMap chosen).getLast?.getD (field (m.after e)) :=
      ih (m.after e)
    rw [hrest, hstep]
    cases hchosen : chosen m with
    | none => rw [List.filterMap_cons_none hchosen, Option.getD_none]
    | some a =>
      rw [List.filterMap_cons_some hchosen, List.getLast?_cons, Option.getD_some, Option.getD_some]

def lastInstrument (moves : List Move) : Instrument :=
  (moves.filterMap Move.instrument?).getLast?.getD .piano

def lastWaveform (moves : List Move) : Waveform :=
  (moves.filterMap Move.waveform?).getLast?.getD Instrument.piano.timbre.waveform

theorem partials_after_moves (patience : Option Nat) (moves : List Move) :
    (afterMoves moves { patience := patience }).partials =
      (lastInstrument moves).timbre.partials := by
  rw [field_after_moves partials
    (fun m => m.instrument?.map fun i : Instrument => i.timbre.partials)
    fun m e => congrArg Voice.partials (voice_after m e)]
  rw [← List.map_filterMap, List.getLast?_map, lastInstrument]
  exact Option.getD_map _ _ _

/-- Whatever happens to a new engine, and whenever the listener interrupts it, its instrument and
its waveform are those chosen last, and both have a name under which they are found. Under the name
of the instrument stand the partials that the engine uses. From there a known name changes the
instrument, and any other value changes nothing at all. -/
theorem voice_last_chosen (patience : Option Nat) (moves : List Move) :
    ∃ e, afterMoves moves { patience := patience } = e ∧
      e.instrument = lastInstrument moves ∧
      e.waveform = lastWaveform moves ∧
      (Instrument.ofName? e.instrument.name).map (fun i => i.timbre.partials) = some e.partials ∧
      Waveform.ofName? e.waveform.name = some e.waveform ∧
      ∀ name : Value,
        (∃ i : Instrument, name = .text i.name ∧ (chooseInstrument name e).outcome = .ok true ∧
            (chooseInstrument name e).state = { e.useTimbre i.timbre with instrument := i }) ∨
          (∀ i : Instrument, name ≠ .text i.name) ∧
            ((chooseInstrument name e).outcome = .ok false ∨
              ∃ f, (chooseInstrument name e).outcome = .error (.fault f)) ∧
            (chooseInstrument name e).state = e := by
  have hinstrument :
      (afterMoves moves { patience := patience }).instrument = lastInstrument moves :=
    field_after_moves instrument Move.instrument?
      (fun m e => congrArg Voice.instrument (voice_after m e)) moves _
  have hwaveform : (afterMoves moves { patience := patience }).waveform = lastWaveform moves :=
    field_after_moves waveform Move.waveform?
      (fun m e => congrArg Voice.waveform (voice_after m e)) moves _
  refine ⟨_, rfl, hinstrument, hwaveform, ?_, Waveform.of_own_name _, fun name => ?_⟩
  · rw [Instrument.of_name_iff.mpr rfl, partials_after_moves, hinstrument]
    rfl
  · exact choose_instrument_cases name _

/-- Three choices, of which the last is refused. -/
example : (afterMoves [.operate (.chooseInstrument (.text "baixo")),
    .operate (.chooseWaveform (.text "SQUARE")),
    .operate (.chooseInstrument (.text "tuba"))] {}).waveform = .square := by
  decide +kernel

end Engine

end Melody.Sound
