import Melody.Proofs.Marks
import Melody.Proofs.Scoping

/-!
# The stack of modes

The start of a parallel block saves the mode of playing on a stack that the whole engine shares,
and its end takes the last one back. Lists of commands run within one another over that stack. If
the starts and the ends are balanced in each list on its own, every list leaves the stack as it
found it.
-/

set_option autoImplicit false

namespace Melody.Command

structure BalancedAfter (pending : Nat) (ms : List Mark) : Prop where
  beginnings : ∀ n, (ms.take n).count .closing ≤ pending + (ms.take n).count .opening
  total : ms.count .closing = pending + ms.count .opening

abbrev Balanced (ms : List Mark) : Prop := BalancedAfter 0 ms

section Balanced

variable {pending : Nat} {ms : List Mark}

theorem BalancedAfter.open (h : BalancedAfter pending (.opening :: ms)) :
    BalancedAfter (pending + 1) ms := by
  constructor
  · intro n
    have hn := h.beginnings (n + 1)
    simp at hn
    omega
  · have ht := h.total
    simp at ht
    omega

theorem BalancedAfter.close (h : BalancedAfter pending (.closing :: ms)) :
    ∃ k, pending = k + 1 ∧ BalancedAfter k ms := by
  have hone := h.beginnings 1
  simp at hone
  obtain ⟨k, rfl⟩ : ∃ k, pending = k + 1 := ⟨pending - 1, by omega⟩
  refine ⟨k, rfl, ?_, ?_⟩
  · intro n
    have hn := h.beginnings (n + 1)
    simp at hn
    omega
  · have ht := h.total
    simp at ht
    omega

theorem BalancedAfter.pass {m : Mark} (h : BalancedAfter pending (m :: ms)) (ho : m ≠ .opening)
    (hc : m ≠ .closing) : BalancedAfter pending ms := by
  constructor
  · intro n
    have hn := h.beginnings (n + 1)
    rwa [List.take_succ_cons, List.count_cons_of_ne ho, List.count_cons_of_ne hc] at hn
  · have ht := h.total
    rwa [List.count_cons_of_ne ho, List.count_cons_of_ne hc] at ht

theorem BalancedAfter.closed (h : BalancedAfter pending []) : pending = 0 := by
  have ht := h.total
  simp at ht
  omega

theorem balanced_silence (n : Nat) : Balanced (List.replicate n .silent) := by
  constructor
  · intro k
    simp [List.take_replicate, List.count_replicate]
  · simp [List.count_replicate]

instance : Decidable (BalancedAfter pending ms) :=
  decidable_of_iff
    ((∀ n ≤ ms.length, (ms.take n).count .closing ≤ pending + (ms.take n).count .opening) ∧
      ms.count .closing = pending + ms.count .opening) (by
    constructor
    · rintro ⟨hshort, htotal⟩
      refine ⟨?_, htotal⟩
      intro n
      by_cases hn : n ≤ ms.length
      · exact hshort n hn
      · rw [List.take_of_length_le (by omega)]
        omega
    · intro h
      exact ⟨fun n _ => h.beginnings n, h.total⟩)

end Balanced

end Melody.Command

namespace Melody.Performance

open Act Command

def SameProgram (program : Program) (p : Performer) : Prop :=
  ∃ ms, p.program = { program with mistakes := ms }

section SameProgram

variable {program : Program} {p : Performer}

theorem SameProgram.refl (p : Performer) : SameProgram p.program p :=
  ⟨p.program.mistakes, rfl⟩

theorem SameProgram.functions (h : SameProgram program p) :
    p.program.functions = program.functions := by
  obtain ⟨ms, hms⟩ := h
  rw [hms]

theorem SameProgram.context (h : SameProgram program p) : p.program.context = program.context := by
  obtain ⟨ms, hms⟩ := h
  rw [hms]
  rfl

theorem SameProgram.parallel (h : SameProgram program p) :
    p.program.parallel = program.parallel := by
  obtain ⟨ms, hms⟩ := h
  rw [hms]

theorem SameProgram.engine (h : SameProgram program p) (e : Sound.Engine) :
    SameProgram program { p with engine := e } :=
  h

end SameProgram

structure Mild (loud : Bool) (E : Sound.Engine → Sound.Engine → Prop) : Prop where
  refl : ∀ e, E e e
  trans : ∀ {e e' e''}, E e e' → E e' e'' → E e e''
  kept : ∀ {e e' : Sound.Engine}, e.Kept loud e' → E e e'

def Lasting (program : Program) (E : Sound.Engine → Sound.Engine → Prop) (p q : Performer) : Prop :=
  SameProgram program p → SameProgram program q ∧ E p.engine q.engine

section Lasting

variable {program : Program} {loud : Bool} {E : Sound.Engine → Sound.Engine → Prop}
  (hE : Mild loud E)

include hE

theorem Mild.lasting_trans {p q r : Performer} (h : Lasting program E p q)
    (h' : Lasting program E q r) : Lasting program E p r := by
  intro hp
  obtain ⟨hq, he⟩ := h hp
  obtain ⟨hr, he'⟩ := h' hq
  exact ⟨hr, hE.trans he he'⟩

theorem Mild.tolerant : Tolerant loud (Lasting program E) :=
  ⟨fun p hp => ⟨hp, hE.refl p.engine⟩, hE.lasting_trans, fun _ e he hp => ⟨hp.engine e, hE.kept he⟩⟩

theorem Mild.walk : Walk fun _ m => m.Keeps (Lasting program E) :=
  hE.tolerant.walk

theorem Mild.set_scope (f : Scope → Scope) :
    (change fun p => { p with scope := f p.scope } : Performance Unit).Keeps
      (Lasting program E) := by
  intro p
  rw [ensures_change]
  exact fun hp => ⟨hp, hE.refl p.engine⟩

theorem Mild.own_scope {m : Performance Unit} (hm : m.Keeps (Lasting program E)) :
    (inOwnScope m).Keeps (Lasting program E) := by
  apply hE.walk.bind hE.walk.read
  intro p
  apply hE.walk.bind (hE.set_scope fun _ => [])
  intro _
  exact hE.walk.bind hm fun _ => hE.set_scope fun _ => p.scope

theorem Mild.bind_parameters (arguments : Value) (parameters : List String) (i : Nat) :
    (bindParameters arguments i parameters).Keeps (Lasting program E) := by
  induction parameters generalizing i with
  | nil => exact hE.walk.answer ()
  | cons name rest ih =>
    apply hE.walk.bind (hE.walk.of_except _)
    intro argument
    apply hE.walk.bind (walk_argument hE.walk argument)
    intro v
    exact hE.walk.bind (hE.set_scope fun s => s.bind (.text name) v) fun _ => ih (i + 1)

theorem Mild.read_body (body : List Char) {p : Performer} (hp : SameProgram program p) :
    (readBody body).Ensures p fun cs q =>
      cs = (Command.read .diagnosing program.context body).commands ∧
        (Command.read .diagnosing program.context body).fault = none ∧ Lasting program E p q := by
  intro cs hcs
  unfold readBody at hcs ⊢
  dsimp only at hcs ⊢
  rw [hp.context] at hcs ⊢
  split at hcs
  · cases hcs
  · rename_i hfault
    cases hcs
    obtain ⟨ms, hms⟩ := hp
    exact ⟨rfl, hfault, fun _ => ⟨⟨_, by rw [hms]⟩, hE.refl p.engine⟩⟩

end Lasting

section Step

variable {program : Program} {E : Sound.Engine → Sound.Engine → Prop} (hE : Mild true E)
  {P : List Mark → Prop} (hP : ∀ n, P (List.replicate n .silent)) {inner : Inner}
  (hinner : ∀ cs, P (cs.map mark) → AllFit P (program.CalleeFits P) cs →
    (inner cs).Keeps (Lasting program E))

include hE hP hinner

theorem block_lasting {b : Block} (hb : BlockFits P (program.CalleeFits P) b) :
    (runBlock inner b).Keeps (Lasting program E) := by
  cases b with
  | missing => exact hinner [] (hP 0) trivial
  | value v =>
    unfold runBlock blockCommands
    rw [bind_assoc]
    apply hE.walk.bind (hE.walk.of_except _)
    intro items
    apply hinner
    · rw [marks_of_others]
      exact hP _
    · exact others_fit items
  | commands cs => exact hinner cs hb.1 hb.2

theorem iterate_lasting (name collection : Value) (backwards : Bool) {body : Block}
    (hb : BlockFits P (program.CalleeFits P) body) (items : List Value) :
    (iterate inner name collection backwards body items).Keeps (Lasting program E) := by
  apply walk_iterate hE.walk hE.set_scope
  intro p
  rw [ensures_bind]
  refine (substitute_block_replaced p "comandos" body).mono ?_
  rintro b _ ⟨rfl, hreplaced⟩
  exact block_lasting hE hP hinner (hreplaced.fits hP hb) _

theorem call_body_lasting (name : String) {parameters : List String} {body : List Char}
    (arguments : Value) (hbody : (Command.read .diagnosing program.context body).fault = none →
      P ((Command.read .diagnosing program.context body).commands.map mark) ∧
        program.AllInvolved P (Command.read .diagnosing program.context body).commands) :
    (callBody inner name parameters body arguments).Keeps (Lasting program E) := by
  apply hE.walk.bind (hE.walk.of_except _)
  intro given
  dsimp only
  split
  · apply hE.walk.bind (hE.bind_parameters arguments parameters 0)
    intro _ p
    by_cases hp : SameProgram program p
    · rw [runBody, ensures_bind]
      refine (hE.read_body body hp).mono ?_
      rintro cs q ⟨rfl, hfault, hq⟩
      obtain ⟨hmarks, hall⟩ := hbody hfault
      rw [ensures_bind]
      refine (substitute_all_replaced q _).mono ?_
      rintro cs' _ ⟨rfl, hreplaced⟩
      refine (hinner cs' (hreplaced.marks ▸ hmarks) (hreplaced.fits hP hall.fits) _).mono ?_
      intro _ r hr
      exact hE.lasting_trans hq hr
    · intro _ _ hother
      exact absurd hother hp
  · exact hE.walk.tell _

theorem call_lasting (function arguments : Slot)
    (hc : Fits P (program.CalleeFits P) (.call function arguments)) :
    (call inner function arguments).Keeps (Lasting program E) := by
  intro p
  by_cases hp : SameProgram program p
  · cases function with
    | none => exact ensures_halt _
    | some function =>
      unfold call
      rw [need, ensures_bind, ensures_answer]
      refine (walk_need walk_still _ _).ensures_bind ?_
      rintro arguments _ rfl
      rw [ensures_bind, ensures_of_except]
      intro known hknown
      rw [ensures_bind, ensures_read]
      split
      · exact walk_builtin hE.walk _ _ _ p
      · rename_i parameters body hf
        obtain ⟨name, rfl, hfind⟩ := Option.bind_eq_some_iff.mp hf
        obtain rfl := text_of_name hknown
        rw [call_user_eq]
        refine hE.tolerant.bind (hE.tolerant.still (still_say _)) ?_ p
        intro _
        refine hE.walk.bind ?_ fun _ => hE.walk.pure _
        rw [hp.functions] at hfind
        exact hE.own_scope (call_body_lasting hE hP hinner _ arguments (hc parameters body hfind))
      · exact hE.walk.bind (hE.walk.tell _) (fun _ => hE.walk.pure _) p
  · intro _ _ hother
    exact absurd hother hp

/-- A step keeps what the lists inside keep. -/
theorem step_lasting {c : Command} (hc : Fits P (program.CalleeFits P) c) :
    (step inner c).Keeps (Lasting program E) := by
  have hcore := fits_core hc
  rcases step_cases c with hplain | ⟨condition, whenTrue, whenFalse, h⟩ | ⟨times, body, h⟩ |
    ⟨name, collection, reversed, body, h⟩ | ⟨function, arguments, h⟩
  · have htolerant : Tolerant (isNote c) (Lasting program E) := by
      refine ⟨hE.tolerant.refl, hE.lasting_trans, ?_⟩
      intro p e he
      apply hE.tolerant.engine
      exact ⟨he.parallel, he.saved, he.temporary, fun hquiet => he.quiet fun _ => hquiet rfl⟩
    exact hplain htolerant.playing inner
  all_goals rw [h] at hcore; unfold step; rw [h]
  · exact walk_branch hE.walk condition (block_lasting hE hP hinner hcore.1)
      (block_lasting hE hP hinner hcore.2)
  · exact walk_loop hE.walk times (block_lasting hE hP hinner hcore)
  · exact walk_for_each hE.walk name collection reversed fun _ _ _ _ =>
      iterate_lasting hE hP hinner _ _ _ hcore _
  · exact hE.walk.bind (call_lasting hE hP hinner function arguments hcore) fun _ => hE.walk.pure _

end Step

section Run

variable {one : Command → Performance Unit} {p : Performer}

theorem open_ensures : openParallel.Ensures p fun _ q =>
    q = { p with engine := p.engine.opened } := by
  refine (walk_debug walk_still _).ensures_bind ?_
  rintro _ _ rfl
  rw [ensures_bind, sound, ensures_on_part, Sound.Engine.saveMode, ensures_change, sound,
    ensures_on_part, Sound.Engine.setParallel, ensures_bind, ensures_change, ensures_say]
  rfl

theorem await_ensures : awaitBlock.Ensures p fun _ q =>
    ∃ e, p.engine.Kept false e ∧ e.active = [] ∧ q = { p with engine := e } := by
  unfold awaitBlock
  rw [ensures_bind, ensures_say, sound, ensures_on_part]
  exact (Sound.Engine.await_silent p.engine).mono fun _ e he => ⟨e, he.1, he.2, rfl⟩

theorem restore_ensures : (sound Sound.Engine.restoreMode).Ensures p fun _ q =>
    q = { p with engine := p.engine.restored } := by
  rw [sound, ensures_on_part, Sound.Engine.ensures_restore]

/-- The end of an open block waits for all sounds and takes the mode back. -/
theorem finish_ensures :
    (do awaitBlock; sound Sound.Engine.restoreMode : Performance Unit).Ensures p fun _ q =>
      ∃ e, p.engine.Kept false e ∧ e.active = [] ∧ q = { p with engine := e.restored } := by
  rw [ensures_bind]
  refine await_ensures.mono ?_
  rintro _ _ ⟨e, hkept, hactive, rfl⟩
  refine restore_ensures.mono ?_
  rintro _ _ rfl
  exact ⟨e, hkept, hactive, rfl⟩

theorem close_ensures (isOpen : Bool) : (closeParallel isOpen).Ensures p fun _ q =>
    ∃ e, p.engine.Kept false e ∧ (isOpen = true → e.active = []) ∧
      q = { p with engine := e.restored } := by
  refine (walk_debug walk_still _).ensures_bind ?_
  rintro _ _ rfl
  cases isOpen with
  | true =>
    refine finish_ensures.mono ?_
    rintro _ _ ⟨e, hkept, hactive, rfl⟩
    exact ⟨e, hkept, fun _ => hactive, rfl⟩
  | false =>
    refine restore_ensures.mono ?_
    rintro _ _ rfl
    exact ⟨_, .refl _, (absurd · Bool.false_ne_true), rfl⟩

/-- A list that is not empty runs its first command, by its mark, and then the others. -/
theorem run_cons {c : Command} {cs : List Command} {isOpen : Bool} {Q : Unit → Performer → Prop}
    (hopening : c.mark = .opening →
      (runAll one true cs).Ensures { p with engine := p.engine.opened } Q)
    (hclosing : c.mark = .closing →
      (closeParallel isOpen).Ensures p fun _ q => (runAll one false cs).Ensures q Q)
    (hother : c.mark ≠ .opening → c.mark ≠ .closing →
      (one c.core).Ensures p fun _ q => (runAll one isOpen cs).Ensures q Q) :
    (runAll one isOpen (c :: cs)).Ensures p Q := by
  refine (walk_announce walk_still c).ensures_bind ?_
  rintro _ _ rfl
  split
  · rename_i hcore
    rw [ensures_bind]
    refine open_ensures.mono ?_
    rintro _ _ rfl
    exact hopening ((mark_opening_iff c).mpr hcore)
  · rename_i hcore
    rw [ensures_bind]
    exact hclosing ((mark_closing_iff c).mpr hcore)
  · rename_i hstart hend
    rw [ensures_bind]
    exact hother (fun h => hstart ((mark_opening_iff c).mp h))
      (fun h => hend ((mark_closing_iff c).mp h))

end Run

section Modes

def SameModes (e e' : Sound.Engine) : Prop :=
  e'.modes = e.modes ∧ e'.temporary = e.temporary

theorem mild_modes : Mild true SameModes where
  refl _ := ⟨rfl, rfl⟩
  trans h h' := ⟨h'.1.trans h.1, h'.2.trans h.2⟩
  kept h := ⟨h.modes, h.temporary⟩

/-- The run closes the blocks that are open at its start, one after another from the top of the
stack. -/
theorem run_modes {program : Program} {one : Command → Performance Unit} {cs : List Command}
    (hone : ∀ c ∈ cs, (one c.core).Keeps (Lasting program SameModes)) {pending : Nat}
    (hbalanced : BalancedAfter pending (cs.map mark)) {isOpen : Bool}
    (hopen : isOpen = true → 0 < pending) {p : Performer} (hp : SameProgram program p)
    (hsaved : pending ≤ p.engine.saved.length) :
    (runAll one isOpen cs).Ensures p fun _ q =>
      SameProgram program q ∧ q.engine.modes = p.engine.modes.drop pending ∧
        q.engine.temporary = p.engine.temporary := by
  induction cs generalizing pending isOpen p with
  | nil =>
    obtain rfl := hbalanced.closed
    cases isOpen with
    | true => exact absurd (hopen rfl) (Nat.lt_irrefl 0)
    | false => exact (ensures_pure ()).mpr ⟨hp, rfl, rfl⟩
  | cons c cs ih =>
    rw [List.map_cons] at hbalanced
    have hrest : ∀ d ∈ cs, (one d.core).Keeps (Lasting program SameModes) :=
      fun d hd => hone d (List.mem_cons_of_mem c hd)
    apply run_cons
    · intro hmark
      rw [hmark] at hbalanced
      exact ih hrest hbalanced.open (fun _ => Nat.succ_pos _) (hp.engine _)
        (Nat.succ_le_succ hsaved)
    · intro hmark
      rw [hmark] at hbalanced
      obtain ⟨k, rfl, hless⟩ := hbalanced.close
      refine (close_ensures isOpen).mono ?_
      rintro _ _ ⟨e, hkept, -, rfl⟩
      have hmodes : e.restored.modes = p.engine.saved := by
        rw [← hkept.saved]
        apply Sound.Engine.restored_modes
        rw [hkept.saved]
        exact List.ne_nil_of_length_pos (by omega)
      have hlength := congrArg List.length hmodes
      rw [Sound.Engine.modes, List.length_cons] at hlength
      refine (ih hrest hless (absurd · Bool.false_ne_true) (hp.engine _) ?_).mono ?_
      · dsimp only
        omega
      · rintro _ q ⟨hq, hdrop, htemporary⟩
        refine ⟨hq, hdrop.trans (by rw [hmodes]; rfl), ?_⟩
        rw [htemporary, Sound.Engine.restored_temporary, hkept.temporary]
    · intro ho hc
      refine (hone c List.mem_cons_self p).mono ?_
      intro _ q hstep
      obtain ⟨hq, hmodes, htemporary⟩ := hstep hp
      have hlength := congrArg List.length hmodes
      rw [Sound.Engine.modes, Sound.Engine.modes, List.length_cons, List.length_cons] at hlength
      refine (ih hrest (hbalanced.pass ho hc) hopen hq (by omega)).mono ?_
      rintro _ r ⟨hr, hdrop, hlast⟩
      exact ⟨hr, hdrop.trans (by rw [hmodes]), hlast.trans htemporary⟩

/-- The induction is on the depth: blocks and calls run one level below. -/
theorem execute_modes {program : Program} (depth : Nat) {cs : List Command}
    (hbalanced : Balanced (cs.map mark)) (hfit : AllFit Balanced (program.CalleeFits Balanced) cs) :
    (execute depth cs).Keeps (Lasting program SameModes) := by
  induction depth generalizing cs with
  | zero =>
    intro p
    exact ensures_halt _
  | succ depth ih =>
    intro p a ha hp
    refine run_modes ?_ hbalanced (absurd · Bool.false_ne_true) hp (Nat.zero_le _) a ha
    intro c hc
    exact step_lasting mild_modes balanced_silence (fun _ => ih) (fits_core (hfit.mem hc))

/-- Commands with balanced blocks that run to their end leave the mode of playing and the stack of
modes as they found them, whatever runs inside. -/
theorem modes_restored (depth : Nat) (cs : List Command) (p : Performer)
    (hbalanced : Balanced (cs.map mark)) (hinvolved : p.program.AllInvolved Balanced cs)
    (hok : (execute depth cs p).outcome = .ok ()) :
    (execute depth cs p).state.engine.parallel = p.engine.parallel ∧
      (execute depth cs p).state.engine.saved = p.engine.saved := by
  have hmodes := (execute_modes depth hbalanced hinvolved.fits p () hok (.refl p)).2.1
  exact List.cons_eq_cons.mp hmodes

def duo : Performer :=
  { program :=
      { tempo := .int 1000000
        functions :=
          [("f", .user ["x"] "inicio_paralelo \x7b tocar x minima; \x7d fim_paralelo".toList)] }
    engine := { parallel := .int 0, saved := [.bool true, .bool false] } }

def nestedBlocks : List Command :=
  [.startParallel,
   .loop (some (.int 2))
    (.commands
      [.startParallel,
       .play (some (.text "do")) (some .none) (some (.text "minima")),
       .endParallel]),
   .call (some (.text "f")) (some (.list [.text "re"])),
   .endParallel]

theorem nested_blocks_restore :
    (execute 3 nestedBlocks duo).outcome = .ok () ∧
      (execute 3 nestedBlocks duo).state.engine.parallel = .int 0 ∧
      (execute 3 nestedBlocks duo).state.engine.saved = [.bool true, .bool false] := by
  have hok : (execute 3 nestedBlocks duo).outcome = .ok () := ok_of_option (by decide +kernel)
  refine ⟨hok, modes_restored 3 nestedBlocks duo (by decide) ?_ hok⟩
  apply Program.all_involved
  · intro ds hds
    obtain rfl := List.mem_singleton.mp hds
    exact ⟨by decide, Program.all_involved_flat rfl rfl⟩
  · intro name hname parameters body hf _
    obtain rfl := List.mem_singleton.mp hname
    cases hf
    exact ⟨by decide +kernel, Program.all_involved_flat (by decide +kernel) (by decide +kernel)⟩

end Modes

end Melody.Performance
