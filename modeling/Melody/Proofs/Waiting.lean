import Melody.Performance.Melody
import Melody.Proofs.Brackets

/-!
# Sounds that are waited for

At the end of a parallel block the performer waits for all sounds, but only if the last mark before
that end was a start: the end of an inner block makes it forget that the outer one is open. A sound
that starts behind an inner block is therefore waited for only if another block starts later.
`Settled` says this of a row of marks. It is what decides whether a melody leaves sounds behind.
-/

set_option autoImplicit false

namespace Melody.Command

def openBlocks : Nat → List Mark → Nat
  | depth, [] => depth
  | depth, .opening :: ms => openBlocks (depth + 1) ms
  | depth, .closing :: ms => openBlocks (depth - 1) ms
  | depth, .sounding :: ms | depth, .silent :: ms => openBlocks depth ms

def lastOpens : Bool → List Mark → Bool
  | isOpen, [] => isOpen
  | _, .opening :: ms => lastOpens true ms
  | _, .closing :: ms => lastOpens false ms
  | isOpen, .sounding :: ms | isOpen, .silent :: ms => lastOpens isOpen ms

/-- Where a command that may sound stands in parallel mode, the end of the block is noticed, or
another block starts later. -/
def SettledFrom (temporary : Bool) (depth : Nat) (isOpen : Bool) (ms : List Mark) : Prop :=
  ∀ before after, ms = before ++ .sounding :: after →
    temporary = true ∨ 0 < openBlocks depth before →
    lastOpens isOpen before = true ∨ .opening ∈ after

abbrev Settled (temporary : Bool) (ms : List Mark) : Prop :=
  SettledFrom temporary 0 false ms

section Settled

variable {temporary isOpen : Bool} {depth : Nat} {ms : List Mark}

theorem SettledFrom.open (h : SettledFrom temporary depth isOpen (.opening :: ms)) :
    SettledFrom temporary (depth + 1) true ms :=
  fun before after hms => h (.opening :: before) after (congrArg _ hms)

theorem SettledFrom.close (h : SettledFrom temporary depth isOpen (.closing :: ms)) :
    SettledFrom temporary (depth - 1) false ms :=
  fun before after hms => h (.closing :: before) after (congrArg _ hms)

theorem SettledFrom.sound (h : SettledFrom temporary depth isOpen (.sounding :: ms)) :
    SettledFrom temporary depth isOpen ms :=
  fun before after hms => h (.sounding :: before) after (congrArg _ hms)

theorem SettledFrom.silent (h : SettledFrom temporary depth isOpen (.silent :: ms)) :
    SettledFrom temporary depth isOpen ms :=
  fun before after hms => h (.silent :: before) after (congrArg _ hms)

theorem settled_silence (n : Nat) : Settled temporary (List.replicate n .silent) := by
  intro before after hms
  have hmem : Mark.sounding ∈ List.replicate n Mark.silent := by
    rw [hms]
    exact List.mem_append_right _ List.mem_cons_self
  cases List.eq_of_mem_replicate hmem

end Settled

end Melody.Command

namespace Melody.Performance

open Act Command Sound

/-- An engine in the middle of a list of commands. Below the modes of the blocks that are open there
is one in which sounds are waited for, and no end of a block takes that one away. -/
structure Underway (temporary : Bool) (depth : Nat) (isOpen : Bool) (rest : List Mark)
    (e : Engine) : Prop where
  switch : e.temporary = temporary
  modes : ∃ above mode base, above.length = depth ∧ mode.isTrue = false ∧
    e.modes = above ++ mode :: base ∧ (base = [] ∨ BalancedAfter depth rest)
  settled : SettledFrom temporary depth isOpen rest
  active : e.active = [] ∨ isOpen = true ∨ .opening ∈ rest

section Underway

variable {temporary isOpen : Bool} {depth : Nat} {ms : List Mark} {e e' : Engine}

theorem Underway.open (h : Underway temporary depth isOpen (.opening :: ms) e) :
    Underway temporary (depth + 1) true ms e.opened := by
  obtain ⟨above, mode, base, hlength, hmode, hmodes, hbase⟩ := h.modes
  refine ⟨h.switch, ⟨.bool true :: above, mode, base, ?_, hmode, ?_, ?_⟩, h.settled.open,
    .inr (.inl rfl)⟩
  · rw [List.length_cons, hlength]
  · rw [List.cons_append, ← hmodes]
    rfl
  · exact hbase.imp_right BalancedAfter.open

theorem Underway.close (h : Underway temporary depth isOpen (.closing :: ms) e)
    (hkept : e.Kept false e') (hwaited : isOpen = true → e'.active = []) :
    Underway temporary (depth - 1) false ms e'.restored := by
  obtain ⟨above, mode, base, hlength, hmode, hmodes, hbase⟩ := h.modes
  rw [← hkept.modes] at hmodes
  refine ⟨by rw [Engine.restored_temporary, hkept.temporary, h.switch], ?_, h.settled.close, ?_⟩
  · cases above with
    | nil =>
      -- With no block open, a balanced rest cannot start with an end.
      obtain rfl : base = [] := by
        refine hbase.resolve_right ?_
        intro hbalanced
        obtain ⟨k, hk, -⟩ := hbalanced.close
        rw [List.length_nil] at hlength
        omega
      subst hlength
      have hsaved : e'.saved = [] := (List.cons_eq_cons.mp hmodes).2
      refine ⟨[], mode, [], rfl, hmode, ?_, .inl rfl⟩
      rw [Engine.restored, hsaved]
      exact hmodes
    | cons top above =>
      subst hlength
      have hsaved : e'.saved = above ++ mode :: base := (List.cons_eq_cons.mp hmodes).2
      refine ⟨above, mode, base, rfl, hmode, ?_, ?_⟩
      · rw [Engine.restored_modes (by rw [hsaved]; simp), hsaved]
      · refine hbase.imp_right ?_
        intro hbalanced
        obtain ⟨k, hk, hless⟩ := hbalanced.close
        obtain rfl : above.length = k := by
          rw [List.length_cons] at hk
          omega
        exact hless
  · rw [Engine.restored_active]
    rcases h.active with hnone | hopen | hlater
    · exact .inl (hkept.quiet (absurd · Bool.false_ne_true) hnone)
    · exact .inl (hwaited hopen)
    · exact .inr (.inr (List.mem_of_ne_of_mem (by decide) hlater))

theorem Underway.pass {m : Mark} (h : Underway temporary depth isOpen (m :: ms) e)
    (ho : m ≠ .opening) (hc : m ≠ .closing) {loud : Bool} (hkept : e.Kept loud e')
    (hsettled : SettledFrom temporary depth isOpen ms)
    (hactive : e.active = [] → e'.active = [] ∨ isOpen = true ∨ .opening ∈ ms) :
    Underway temporary depth isOpen ms e' := by
  obtain ⟨above, mode, base, hlength, hmode, hmodes, hbase⟩ := h.modes
  refine ⟨hkept.temporary.trans h.switch, ⟨above, mode, base, hlength, hmode,
    hkept.modes.trans hmodes, hbase.imp_right (·.pass ho hc)⟩, hsettled, ?_⟩
  rcases h.active with hnone | hopen | hlater
  · exact hactive hnone
  · exact .inr (.inl hopen)
  · exact .inr (.inr (List.mem_of_ne_of_mem ho.symm hlater))

theorem Underway.silent (h : Underway temporary depth isOpen (.silent :: ms) e)
    (hkept : e.Kept false e') : Underway temporary depth isOpen ms e' :=
  h.pass (by decide) (by decide) hkept h.settled.silent
    fun hnone => .inl (hkept.quiet (absurd · Bool.false_ne_true) hnone)

/-- Outside of all blocks a sound is waited for at once, and inside the rest of the list sees to
it. -/
theorem Underway.sound (h : Underway temporary depth isOpen (.sounding :: ms) e)
    (hkept : e.Kept true e') : Underway temporary depth isOpen ms e' := by
  refine h.pass (by decide) (by decide) hkept h.settled.sound ?_
  intro hnone
  by_cases hparallel : temporary = true ∨ 0 < depth
  · exact .inr (h.settled [] ms rfl hparallel)
  · obtain ⟨above, mode, base, hlength, hmode, hmodes, -⟩ := h.modes
    obtain rfl : above = [] := List.eq_nil_of_length_eq_zero (by omega)
    have hmode : e.parallel.isTrue = false := by
      rw [(List.cons_eq_cons.mp hmodes).1, hmode]
    refine .inl (hkept.quiet (fun _ => ?_) hnone)
    rw [Engine.overlaps, hmode, h.switch]
    simpa using fun ht => hparallel (.inl ht)

end Underway

section Run

variable {program : Program}

theorem mild_kept (loud : Bool) : Mild loud (Engine.Kept loud) :=
  ⟨Engine.Kept.refl, Engine.Kept.trans, id⟩

variable (program) in
/-- A command that is silent by its mark leaves no sound behind, in any mode. -/
theorem step_silent {c : Command} (h : c.mark = .silent) (inner : Inner) :
    (step inner c).Keeps (Lasting program (Engine.Kept false)) := by
  have hnote : isNote c = false := by
    unfold isNote
    unfold mark at h
    split at h <;> simp_all
  rcases step_cases c with hplain | ⟨_, _, _, hc⟩ | ⟨_, _, hc⟩ | ⟨_, _, _, _, hc⟩ | ⟨_, _, hc⟩
  · rw [hnote] at hplain
    exact hplain (mild_kept false).tolerant.playing inner
  all_goals
    rw [mark, hc] at h
    cases h

def Orderly (ms : List Mark) : Prop :=
  Balanced ms ∧ Settled false ms

theorem orderly_silence (n : Nat) : Orderly (List.replicate n .silent) :=
  ⟨balanced_silence n, settled_silence n⟩

theorem run_silent {inner : Inner}
    (hinner : ∀ cs, Orderly (cs.map mark) → AllFit Orderly (program.CalleeFits Orderly) cs →
      (inner cs).Keeps (Lasting program (Engine.Kept true)))
    {cs : List Command} (hfit : AllFit Orderly (program.CalleeFits Orderly) cs)
    {temporary isOpen : Bool} {depth : Nat} {p : Performer} (hp : SameProgram program p)
    (h : Underway temporary depth isOpen (cs.map mark) p.engine) :
    (runAll (step inner) isOpen cs).Ensures p fun _ q => q.engine.active = [] := by
  induction cs generalizing isOpen depth p with
  | nil =>
    cases isOpen with
    | true =>
      refine finish_ensures.mono ?_
      rintro _ _ ⟨e, -, hactive, rfl⟩
      exact (Engine.restored_active e).trans hactive
    | false =>
      refine (ensures_pure ()).mpr ?_
      rcases h.active with hnone | hopen | hlater
      · exact hnone
      · exact absurd hopen Bool.false_ne_true
      · cases hlater
  | cons c cs ih =>
    rw [List.map_cons] at h
    apply run_cons
    · intro hmark
      rw [hmark] at h
      exact ih hfit.2 (hp.engine _) h.open
    · intro hmark
      rw [hmark] at h
      refine (close_ensures isOpen).mono ?_
      rintro _ _ ⟨e, hkept, hwaited, rfl⟩
      exact ih hfit.2 (hp.engine _) (h.close hkept hwaited)
    · intro ho hc
      cases hmark : c.mark with
      | opening => exact absurd hmark ho
      | closing => exact absurd hmark hc
      | sounding =>
        rw [hmark] at h
        refine (step_lasting (mild_kept true) orderly_silence hinner (fits_core hfit.1) p).mono ?_
        intro _ q hstep
        exact ih hfit.2 (hstep hp).1 (h.sound (hstep hp).2)
      | silent =>
        rw [hmark] at h
        refine (step_silent program (c.mark_core.trans hmark) inner p).mono ?_
        intro _ q hstep
        exact ih hfit.2 (hstep hp).1 (h.silent (hstep hp).2)

/-- The induction is on the depth: blocks and calls run one level below. -/
theorem execute_quiet (depth : Nat) {cs : List Command} (horderly : Orderly (cs.map mark))
    (hfit : AllFit Orderly (program.CalleeFits Orderly) cs) :
    (execute depth cs).Keeps (Lasting program (Engine.Kept true)) := by
  induction depth generalizing cs with
  | zero =>
    intro p
    exact ensures_halt _
  | succ depth ih =>
    intro p a ha hp
    have hmodes : ∀ c ∈ cs, (step (execute depth) c.core).Keeps (Lasting program SameModes) := by
      intro c hc q
      have hkept := step_lasting (mild_kept true) orderly_silence (fun _ => ih)
        (fits_core (hfit.mem hc)) q
      exact hkept.mono fun _ r hr hq => ⟨(hr hq).1, mild_modes.kept (hr hq).2⟩
    obtain ⟨hq, hrestored, hswitch⟩ := run_modes hmodes horderly.1 (absurd · Bool.false_ne_true) hp
      (Nat.zero_le _) a ha
    obtain ⟨hparallel, hsaved⟩ := List.cons_eq_cons.mp hrestored
    refine ⟨hq, hparallel, hsaved, hswitch, ?_⟩
    intro hquiet hactive
    obtain ⟨hmode, hoff⟩ := Bool.or_eq_false_iff.mp (hquiet rfl)
    refine run_silent (fun _ => ih) hfit hp ⟨hoff, ?_, horderly.2, .inl hactive⟩ a ha
    exact ⟨[], p.engine.parallel, p.engine.saved, rfl, hmode, rfl, .inr horderly.1⟩

theorem run_program {one : Command → Performance Unit} {cs : List Command}
    (hone : ∀ c ∈ cs, (one c.core).Keeps (Lasting program fun _ _ => True)) (isOpen : Bool)
    {p : Performer} (hp : SameProgram program p) :
    (runAll one isOpen cs).Ensures p fun _ q => SameProgram program q := by
  induction cs generalizing isOpen p with
  | nil =>
    cases isOpen with
    | true =>
      refine finish_ensures.mono ?_
      rintro _ _ ⟨e, -, -, rfl⟩
      exact hp.engine _
    | false => exact (ensures_pure ()).mpr hp
  | cons c cs ih =>
    have hmore := fun d hd => hone d (List.mem_cons_of_mem c hd)
    apply run_cons
    · intro _
      exact ih hmore true (hp.engine _)
    · intro _
      refine (close_ensures isOpen).mono ?_
      rintro _ _ ⟨e, -, -, rfl⟩
      exact ih hmore false (hp.engine _)
    · intro _ _
      refine (hone c List.mem_cons_self p).mono ?_
      intro _ q hstep
      exact ih hmore isOpen (hstep hp).1

/-- Nothing that runs changes the program, but for the mistakes it records. -/
theorem execute_program (depth : Nat) (cs : List Command) :
    (execute depth cs).Keeps (Lasting program fun _ _ => True) := by
  induction depth generalizing cs with
  | zero =>
    intro p
    exact ensures_halt _
  | succ depth ih =>
    intro p a ha hp
    refine ⟨run_program ?_ false hp a ha, trivial⟩
    intro c hc
    have hfit : AllFit (fun _ => True) (program.CalleeFits fun _ => True) cs :=
      Program.AllInvolved.fits fun _ _ => trivial
    exact step_lasting ⟨fun _ => trivial, fun _ _ => trivial, fun _ => trivial⟩ (fun _ => trivial)
      (fun ds _ _ => ih ds) (fits_core (hfit.mem hc))

end Run

structure Prepared (p q : Performer) : Prop where
  program : q.program = p.program
  parallel : q.engine.parallel = .bool p.program.parallel
  saved : q.engine.saved = p.engine.saved
  temporary : q.engine.temporary = p.engine.temporary
  active : p.engine.active = [] → q.engine.active = []

def Retimbred (p q : Performer) : Prop :=
  q.program = p.program ∧ p.engine.Kept false q.engine

theorem tolerant_retimbred : Tolerant false Retimbred :=
  ⟨fun _ => ⟨rfl, .refl _⟩, fun h h' => ⟨h'.1.trans h.1, h.2.trans h'.2⟩, fun _ _ he => ⟨rfl, he⟩⟩

theorem still_debug (line : String) : (sayIfDebug line).Still := by
  apply still_read.bind
  intro p
  split
  · exact still_say line
  · exact still_pure ()

section Settings

variable {p q : Performer} (hq : Retimbred p q)

include hq

theorem Retimbred.ensures_bind {α : Type} {m : Performance α} {f : α → Performance Unit}
    (hm : m.Keeps Retimbred) {Q : Unit → Performer → Prop}
    (hf : ∀ a r, Retimbred p r → (f a).Ensures r Q) : (m >>= f).Ensures q Q :=
  hm.ensures_bind fun a r hr => hf a r (tolerant_retimbred.trans hq hr)

theorem Retimbred.prepare (line : String) :
    (do
      sound (Engine.setParallel (.bool p.program.parallel))
      sayIfDebug line : Performance Unit).Ensures q fun _ r => Prepared p r := by
  rw [Act.ensures_bind, sound, ensures_on_part, Engine.setParallel, Act.ensures_bind,
    ensures_change, ensures_say]
  refine (still_debug _).ensures ?_
  intro _
  exact ⟨hq.1, rfl, hq.2.saved, hq.2.temporary, hq.2.quiet (absurd · Bool.false_ne_true)⟩

end Settings

theorem settings_ensures (p : Performer) : applySettings.Ensures p fun _ q => Prepared p q := by
  have hsound {m : Act Engine Unit} (hm : m.Keeps (Engine.Kept false)) :
      (sound m).Keeps Retimbred := tolerant_retimbred.keeps_sound hm
  have hwaveform {q : Performer} (hq : Retimbred p q) (w line : String) :
      (if w ≠ "" then do
          sound (Engine.chooseWaveform (.text w))
          sound (Engine.setParallel (.bool p.program.parallel))
          sayIfDebug line
        else do
          sound (Engine.setParallel (.bool p.program.parallel))
          sayIfDebug line : Performance Unit).Ensures q fun _ r => Prepared p r := by
    split
    · exact hq.ensures_bind (hsound (Engine.keeps_waveform _)) fun _ _ hr => hr.prepare line
    · exact hq.prepare line
  have hp := tolerant_retimbred.refl p
  unfold applySettings
  rw [ensures_bind, ensures_read]
  dsimp only
  split
  · refine hp.ensures_bind (tolerant_retimbred.keeps_sound (Engine.keeps_instrument _)) ?_
    intro _ q hq
    refine hq.ensures_bind (tolerant_retimbred.still (still_debug _)) ?_
    intro _ q hq
    split
    · exact hq.ensures_bind (hsound (Engine.keeps_envelope _)) fun _ _ hr => hwaveform hr _ _
    · exact hwaveform hq _ _
  · split
    · exact hp.ensures_bind (hsound (Engine.keeps_envelope _)) fun _ _ hr => hwaveform hr _ _
    · exact hwaveform hp _ _

def Plays (program : Program) (name : Value) (cs : List Command) : Prop :=
  ∃ melody, (chooseMelody name program.melodies).asName = .ok (some melody) ∧
    program.melodies.find? melody = some cs

theorem perform_quiet {p : Performer} {name : Value} {cs : List Command}
    (hactive : p.engine.active = []) (hsaved : p.engine.saved = [])
    (hplays : Plays p.program name cs)
    (hsettled : Settled p.engine.temporary (cs.map mark))
    (hinvolved : p.program.AllInvolved Orderly cs) :
    (perform name).Ensures p fun _ q => q.engine.active = [] := by
  obtain ⟨melody, hname, hfind⟩ := hplays
  unfold perform
  rw [ensures_bind, ensures_read]
  dsimp only
  rw [hname, ensures_bind, ensures_of_except]
  intro known hknown
  cases hknown
  rw [Option.bind_some, hfind]
  dsimp only
  rw [ensures_bind, ensures_say, ensures_bind]
  refine (settings_ensures p).mono ?_
  intro _ q hq
  have hprogram : SameProgram p.program q := ⟨p.program.mistakes, hq.program⟩
  rw [ensures_bind]
  intro a ha
  have hafter : SameProgram p.program (run cs q).state :=
    (execute_program depthLimit cs q a ha hprogram).1
  rw [ensures_bind, ensures_read]
  split
  · rw [ensures_bind, ensures_say, ensures_bind, sound, ensures_on_part]
    refine (Engine.await_silent _).mono ?_
    rintro _ e ⟨-, hnone⟩
    rw [ensures_bind, ensures_say, ensures_pure]
    exact hnone
  · rename_i hsequential
    rw [ensures_bind, ensures_say, ensures_pure]
    rw [hafter.parallel, Bool.not_eq_true] at hsequential
    have hunderway : Underway p.engine.temporary 0 false (cs.map mark) q.engine := by
      refine ⟨hq.temporary, ⟨[], .bool false, [], rfl, rfl, ?_, .inl rfl⟩, hsettled,
        .inl (hq.active hactive)⟩
      rw [Engine.modes, hq.parallel, hq.saved, hsequential, hsaved]
      rfl
    exact run_silent (fun _ => execute_quiet _) hinvolved.fits hprogram hunderway a ha

end Melody.Performance
