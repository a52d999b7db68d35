import Mathlib.Tactic.ByContra
import Melody.Proofs.Waiting

/-!
# Sounds that outlast a melody

A row of marks that is not settled has a place whose sound nobody waits for. Commands that only keep
the row, with one note in that place, are a melody that ends while the note still sounds. So a row
of marks leaves no sound behind, whatever its commands are, exactly if it is settled.
-/

set_option autoImplicit false

namespace Melody.Performance

open Act Command Sound

def filler : Mark → Command
  | .opening => .startParallel
  | .closing => .endParallel
  | .sounding => .loop (some (.int 0)) (.commands [])
  | .silent => .other (.record [("tipo", .text "")])

def lastingNote : Command :=
  .play (some (.text "do")) (some .none) (some (.text "minima"))

def noteWithin (before after : List Mark) : List Command :=
  before.map filler ++ lastingNote :: after.map filler

theorem marks_of_fillers (ms : List Mark) : (ms.map filler).map mark = ms := by
  induction ms with
  | nil => rfl
  | cons m ms ih =>
    rw [List.map_cons, List.map_cons, ih]
    cases m <;> rfl

theorem marks_of_note_within (before after : List Mark) :
    (noteWithin before after).map mark = before ++ .sounding :: after := by
  rw [noteWithin, List.map_append, List.map_cons, marks_of_fillers, marks_of_fillers]
  rfl

/-- What the fillers run is empty. -/
theorem note_within_involves (program : Program) (before after : List Mark) :
    program.AllInvolved Orderly (noteWithin before after) := by
  have hfiller (m : Mark) : (∀ ds ∈ (filler m).lists, ds = []) ∧ (filler m).callee? = none := by
    cases m <;> exact ⟨by simp [filler, lists, core, Block.lists], rfl⟩
  have hcommand : ∀ c ∈ noteWithin before after, (∀ ds ∈ c.lists, ds = []) ∧ c.callee? = none := by
    intro c hc
    rcases List.mem_append.mp hc with hc | hc
    · obtain ⟨m, -, rfl⟩ := List.mem_map.mp hc
      exact hfiller m
    · rcases List.mem_cons.mp hc with rfl | hc
      · exact ⟨by simp [lastingNote, lists, core], rfl⟩
      · obtain ⟨m, -, rfl⟩ := List.mem_map.mp hc
        exact hfiller m
  apply Program.all_involved
  · intro ds hds
    obtain ⟨c, hc, hds⟩ := List.mem_flatMap.mp hds
    obtain rfl := (hcommand c hc).1 ds hds
    exact ⟨orderly_silence 0, Program.all_involved_flat rfl rfl⟩
  · intro name hname
    obtain ⟨c, hc, hname⟩ := List.mem_filterMap.mp hname
    rw [(hcommand c hc).2] at hname
    cases hname

def nested (e : Engine) (depth : Nat) : Engine :=
  { e with
    parallel := .bool (0 < depth)
    saved := (List.replicate depth (Value.bool true) ++ [Value.bool false]).tail }

theorem opened_nested (e : Engine) (depth : Nat) :
    (nested e depth).opened = nested e (depth + 1) := by
  cases depth with
  | zero => rfl
  | succ depth => rfl

theorem restored_nested (e : Engine) (depth : Nat) :
    (nested e depth).restored = nested e (depth - 1) := by
  match depth with
  | 0 => rfl
  | 1 => rfl
  | depth + 2 => rfl

/-- A sound that overlaps becomes active. -/
theorem start_answers {e : Engine} (h : e.overlaps = true) (channels : List Int16 × List Int16)
    (seconds : Float) :
    (Engine.start channels (.float seconds)).Answers e ()
      { e with
        sounds := e.sounds + 1
        active := e.active ++ [e.sounds + 1]
        watchers := e.watchers ++ [⟨e.sounds + 1, e.now + seconds⟩] } := by
  refine Answers.bind ⟨rfl, rfl⟩ (Answers.bind ⟨rfl, rfl⟩ (Answers.bind ⟨rfl, rfl⟩
    (Answers.bind ⟨rfl, rfl⟩ ?_)))
  rw [if_pos (show (e.parallel.isTrue || e.temporary) = true from h)]
  exact ⟨rfl, rfl⟩

def samples (frequency seconds : Float) : Except Fault (List Int16 × List Int16) :=
  let e : Engine := {}
  let level (n : Nat) := do
    let pitch ← soundingPitch e.waveform e.partials n (.float frequency)
    return noteLevel e.waveform e.partials pitch
  render level e.envelope (.float seconds) Engine.usualVolume

def fast : Value := .int 1000000

def noteSamples : Except Fault (List Int16 × List Int16) := do
  let frequency ← Theory.noteFrequency (.text "do") .none
  let seconds ← Theory.durationSeconds (.text "minima") fast
  samples frequency seconds

theorem note_has_samples : ∃ frequency seconds channels,
    Theory.noteFrequency (.text "do") .none = .ok frequency ∧
      Theory.durationSeconds (.text "minima") fast = .ok seconds ∧
      samples frequency seconds = .ok channels := by
  have hok : noteSamples.isOk = true := by decide +kernel
  cases h : noteSamples with
  | error f =>
    rw [h] at hok
    cases hok
  | ok channels =>
    obtain ⟨frequency, hf, h⟩ := bind_ok h
    obtain ⟨seconds, hd, h⟩ := bind_ok h
    exact ⟨frequency, seconds, channels, hf, hd, h⟩

def stage (melody : List Command) (e : Engine) : Performer :=
  { program := { tempo := fast, melodies := [("m", melody)] }, engine := e }

section Stage

variable (melody : List Command)

theorem sound_answers {α : Type} {m : Act Engine α} {e e' : Engine} {a : α}
    (h : m.Answers e a e') : (sound m).Answers (stage melody e) a (stage melody e') :=
  ⟨h.outcome, by rw [← h.state]; rfl⟩

theorem await_answers {e : Engine} (h : e.active = []) :
    awaitBlock.Answers (stage melody e) () (stage melody e) := by
  have hwait (n : Nat) : (Engine.waitWithin (n + 1)).Answers e () e := by
    refine Answers.bind ⟨rfl, rfl⟩ ?_
    rw [h]
    exact ⟨rfl, rfl⟩
  exact Answers.bind ⟨rfl, rfl⟩ (sound_answers melody (Answers.bind ⟨rfl, rfl⟩ (hwait _)))

theorem restore_answers (e : Engine) :
    (sound Engine.restoreMode).Answers (stage melody e) () (stage melody e.restored) := by
  apply sound_answers
  refine Answers.bind ⟨rfl, rfl⟩ ?_
  unfold Engine.restored
  cases e.saved with
  | nil => exact ⟨rfl, rfl⟩
  | cons mode rest => exact ⟨rfl, rfl⟩

theorem close_answers {e : Engine} {isOpen : Bool} (h : isOpen = true → e.active = []) :
    (closeParallel isOpen).Answers (stage melody e) () (stage melody e.restored) := by
  refine Answers.bind ⟨rfl, rfl⟩ ?_
  cases isOpen with
  | true => exact Answers.bind (await_answers melody (h rfl)) (restore_answers melody e)
  | false => exact restore_answers melody e

theorem stop_answers {reason : String} {m : Performance Unit} {p q : Performer}
    (h : m.Answers p () q) : (stopOnBadValue reason m).Answers p () q := by
  unfold stopOnBadValue
  constructor
  all_goals
    dsimp only
    rw [h.outcome]
  · exact h.outcome
  · exact h.state

/-- The fillers only open and close blocks. If a sound is active, none of them may wait. -/
theorem fill_answers (inner : Inner) {e : Engine} {rest : List Command} {q : Performer}
    (ms : List Mark) {depth : Nat} {isOpen : Bool}
    (hactive : e.active = [] ∨ isOpen = false ∧ .opening ∉ ms)
    (hrest : (runAll (step inner) (lastOpens isOpen ms) rest).Answers
      (stage melody (nested e (openBlocks depth ms))) () q) :
    (runAll (step inner) isOpen (ms.map filler ++ rest)).Answers
      (stage melody (nested e depth)) () q := by
  induction ms generalizing depth isOpen with
  | nil => exact hrest
  | cons m ms ih =>
    have hlater (h : isOpen = false ∧ .opening ∉ m :: ms) : .opening ∉ ms :=
      fun hmem => h.2 (List.mem_cons_of_mem m hmem)
    cases m with
    | opening =>
      refine Answers.bind ⟨rfl, rfl⟩ (Answers.bind ⟨rfl, rfl⟩ ?_)
      change (runAll (step inner) true (ms.map filler ++ rest)).Answers
        (stage melody (nested e depth).opened) () q
      rw [opened_nested]
      exact ih (.inl (hactive.resolve_right fun h => h.2 List.mem_cons_self)) hrest
    | closing =>
      have hwaited : isOpen = true → (nested e depth).active = [] := by
        rintro rfl
        exact hactive.resolve_right fun h => absurd h.1.symm Bool.false_ne_true
      refine Answers.bind ⟨rfl, rfl⟩ (Answers.bind (close_answers melody hwaited) ?_)
      rw [restored_nested]
      exact ih (hactive.imp_right fun h => ⟨rfl, hlater h⟩) hrest
    | sounding | silent =>
      exact Answers.bind ⟨rfl, rfl⟩ (Answers.bind ⟨rfl, rfl⟩
        (ih (hactive.imp_right fun h => ⟨h.1, hlater h⟩) hrest))

theorem note_answers (inner : Inner) {temporary : Bool} {depth : Nat}
    (h : temporary = true ∨ 0 < depth) : ∃ e : Engine, e.active = [1] ∧
      (step inner lastingNote).Answers (stage melody (nested { temporary := temporary } depth)) ()
        (stage melody (nested e depth)) := by
  obtain ⟨frequency, seconds, channels, hf, hd, hs⟩ := note_has_samples
  refine ⟨{ temporary := temporary, sounds := 1, active := [1], watchers := [⟨1, 0.0 + seconds⟩] },
    rfl, ?_⟩
  have hoverlaps : (nested { temporary := temporary } depth).overlaps = true := by
    change (decide (0 < depth) || temporary) = true
    simpa [or_comm] using h
  have hplay : (Engine.play [.float frequency] (.float seconds) Engine.usualVolume).Answers
      (nested { temporary := temporary } depth) () _ :=
    Answers.bind ⟨rfl, rfl⟩
      (Answers.bind (answers_of_except hs) (start_answers hoverlaps channels seconds))
  have hseconds : (durationSeconds (.text "minima")).Answers
      (stage melody (nested { temporary := temporary } depth)) seconds _ :=
    Answers.bind ⟨rfl, rfl⟩ (answers_of_except hd)
  -- The three fields of the note are there, so the rest is what may stop on a bad value.
  refine Answers.bind ⟨rfl, rfl⟩ (Answers.bind ⟨rfl, rfl⟩ (Answers.bind ⟨rfl, rfl⟩ ?_))
  apply stop_answers
  refine Answers.bind (answers_of_except hf) (Answers.bind hseconds ?_)
  exact Answers.bind ⟨rfl, rfl⟩ (Answers.bind ⟨rfl, rfl⟩ (sound_answers melody hplay))

end Stage

theorem last_opens_false {ms : List Mark} (h : .opening ∉ ms) : lastOpens false ms = false := by
  induction ms with
  | nil => rfl
  | cons m ms ih =>
    have hms := ih fun hmem => h (List.mem_cons_of_mem m hmem)
    cases m with
    | opening => exact absurd List.mem_cons_self h
    | closing | sounding | silent => exact hms

section NoteWithin

variable {temporary : Bool} {before after : List Mark}
  (hparallel : temporary = true ∨ 0 < openBlocks 0 before) (hlast : lastOpens false before = false)
  (hafter : .opening ∉ after)

include hparallel hlast hafter

theorem run_note_within (melody : List Command) : ∃ e : Engine, e.active = [1] ∧
    (run (noteWithin before after)).Answers (stage melody { temporary := temporary }) ()
      (stage melody e) := by
  obtain ⟨e, hactive, hnote⟩ := note_answers melody (execute 489) hparallel
  refine ⟨nested e (openBlocks (openBlocks 0 before) after), hactive, ?_⟩
  have hnone : ({ temporary := temporary } : Engine).active = [] := rfl
  change (runAll (step (execute 489)) false
    (before.map filler ++ lastingNote :: after.map filler)).Answers
      (stage melody (nested { temporary := temporary } 0)) () _
  apply fill_answers melody _ before (.inl hnone)
  rw [hlast]
  refine Answers.bind ⟨rfl, rfl⟩ (Answers.bind hnote ?_)
  rw [← List.append_nil (after.map filler)]
  apply fill_answers melody _ after (.inr ⟨rfl, hafter⟩)
  rw [last_opens_false hafter]
  exact ⟨rfl, rfl⟩

theorem perform_note_within : ∃ q : Performer, q.engine.active = [1] ∧
    (perform (.text "m")).Answers (stage (noteWithin before after) { temporary := temporary })
      true q := by
  obtain ⟨e, hactive, hrun⟩ := run_note_within hparallel hlast hafter (noteWithin before after)
  refine ⟨stage (noteWithin before after) e, hactive, ?_⟩
  refine Answers.bind ⟨rfl, rfl⟩ (Answers.bind ⟨rfl, rfl⟩ (Answers.bind ⟨rfl, rfl⟩ ?_))
  have hsettings : applySettings.Answers
      (stage (noteWithin before after) { temporary := temporary }) ()
      (stage (noteWithin before after) { temporary := temporary }) :=
    ⟨rfl, rfl⟩
  refine Answers.bind hsettings (Answers.bind hrun ?_)
  exact Answers.bind ⟨rfl, rfl⟩ (Answers.bind ⟨rfl, rfl⟩ ⟨rfl, rfl⟩)

end NoteWithin

/-- Melodies with a row of marks end without an active sound, whenever they end regularly and each
list that they run is orderly, exactly if the row is settled. -/
theorem no_sound_left_iff_settled (temporary : Bool) (ms : List Mark) :
    (∀ (p : Performer) (name : Value) (cs : List Command),
        p.engine.active = [] → p.engine.saved = [] → p.engine.temporary = temporary →
        Plays p.program name cs → cs.map mark = ms → p.program.AllInvolved Orderly cs →
        (perform name p).outcome = .ok true → (perform name p).state.engine.active = []) ↔
      Settled temporary ms := by
  constructor
  · intro h before after hms hparallel
    by_contra hbad
    rw [not_or, Bool.not_eq_true] at hbad
    obtain ⟨q, hactive, hanswers⟩ := perform_note_within hparallel hbad.1 hbad.2
    have hsilent := h _ _ (noteWithin before after) rfl rfl rfl ⟨"m", rfl, rfl⟩
      ((marks_of_note_within before after).trans hms.symm) (note_within_involves _ before after)
      hanswers.outcome
    rw [hanswers.state, hactive] at hsilent
    cases hsilent
  · rintro hsettled p name cs hactive hsaved rfl hplays rfl hinvolved hok
    exact perform_quiet hactive hsaved hplays hsettled hinvolved true hok

def noteBehindBlock : String :=
  "tempo 1000000 melodia m \x7b inicio_paralelo \x7b inicio_paralelo \x7b \x7d fim_paralelo " ++
    "tocar do minima; \x7d fim_paralelo \x7d"

def reader : Performer :=
  (process noteBehindBlock.toList {}).state

theorem note_behind_block_lingers :
    (process noteBehindBlock.toList {}).outcome = .ok () ∧
      (perform .none reader).outcome = .ok true ∧
      (perform .none reader).state.engine.active = [1] ∧
      ¬ Settled false [.opening, .opening, .closing, .sounding, .closing] := by
  have hrun : ((process noteBehindBlock.toList {}).outcome.toOption,
      (perform .none reader).outcome.toOption, (perform .none reader).state.engine.active) =
        (some (), some true, [1]) := by
    decide +kernel
  have hmelody : ((chooseMelody .none reader.program.melodies).asName.toOption,
      (reader.program.melodies.find? "m").map fun cs =>
        (cs.map mark, (cs.flatMap lists).isEmpty, (cs.filterMap callee?).isEmpty)) =
      (some (some "m"),
        some ([.opening, .opening, .closing, .sounding, .closing], true, true)) := by
    decide +kernel
  rw [Prod.mk.injEq, Prod.mk.injEq] at hrun
  obtain ⟨hread, hok, hactive⟩ := hrun
  refine ⟨ok_of_option hread, ok_of_option hok, hactive, ?_⟩
  intro hsettled
  rw [Prod.mk.injEq, Option.map_eq_some_iff] at hmelody
  obtain ⟨hname, cs, hfind, hcs⟩ := hmelody
  rw [Prod.mk.injEq, Prod.mk.injEq] at hcs
  obtain ⟨hmarks, hblocks, hcalls⟩ := hcs
  have hsilent := (no_sound_left_iff_settled false _).mpr hsettled reader .none cs rfl rfl rfl
    ⟨"m", ok_of_option hname, hfind⟩ hmarks (Program.all_involved_flat hblocks hcalls)
    (ok_of_option hok)
  rw [hactive] at hsilent
  cases hsilent

end Melody.Performance
