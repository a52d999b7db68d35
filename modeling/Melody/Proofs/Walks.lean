import Melody.Performance.Run
import Melody.Proofs.Chords

/-!
# Walking through performances

Many properties of an action come from its parts: that it leaves the state alone, that it never
nests too deep, that it keeps a relation between the performers before and after it. `Walk` says
what such a property has to hold of, and the lemmas below go once through the actions of a
performance for all of them. A line that announces a call is left out of the walk, so properties
that count the calls can take it as well.
-/

set_option autoImplicit false

namespace Melody

def departs : List Char → List Char → Bool
  | a :: as, b :: bs => a != b || departs as bs
  | _, _ => false

theorem departs_append {as ws : List Char} (bs : List Char) (h : departs as ws = true) :
    departs (as ++ bs) ws = true := by
  fun_induction departs as ws with
  | case1 a as w ws ih =>
    rw [List.cons_append, departs, Bool.or_eq_true]
    exact (Bool.or_eq_true_iff.mp h).imp_right ih
  | case2 => cases h

theorem not_departs_prefix (as bs : List Char) : departs (as ++ bs) as = false := by
  induction as with
  | nil => cases bs <;> rfl
  | cons a as ih => simp [departs, ih]

def Unlike (words line : String) : Prop :=
  departs line.toList words.toList = true

instance (words line : String) : Decidable (Unlike words line) :=
  inferInstanceAs (Decidable (_ = true))

theorem Unlike.append {words start : String} (h : Unlike words start) (rest : String) :
    Unlike words (start ++ rest) := by
  unfold Unlike
  rw [String.toList_append]
  exact departs_append _ h

theorem Unlike.ne_append {words line : String} (h : Unlike words line) (rest : String) :
    line ≠ words ++ rest := by
  rintro rfl
  rw [Unlike, String.toList_append, not_departs_prefix] at h
  cases h

def callWords : String := "Executando função '"

abbrev Ordinary (line : String) : Prop :=
  Unlike callWords line

namespace Act

variable {σ α β : Type}

/-- A property of actions that longer actions get from their parts. -/
structure Walk (P : (α : Type) → Act σ α → Prop) : Prop where
  answer : ∀ {α : Type} (a : α), P α (answer a)
  fail : ∀ {α : Type} (f : Fault), P α (fail f)
  say : ∀ line, Ordinary line → P Unit (say line)
  read : P σ read
  bind : ∀ {α β : Type} {m : Act σ α} {f : α → Act σ β}, P α m → (∀ a, P β (f a)) → P β (m >>= f)

structure FreeWalk (P : (α : Type) → Act σ α → Prop) : Prop extends Walk P where
  halt : ∀ {α : Type} (h : Halt), h ≠ .tooDeep → P α (halt h)
  emit : ∀ e, (∀ line, e ≠ .printed line) → P Unit (emit e)
  change : ∀ g, P Unit (change g)

section Walk

variable {P : (α : Type) → Act σ α → Prop} (hP : Walk P)

include hP

theorem Walk.pure (a : α) : P α (Pure.pure a) :=
  hP.answer a

theorem Walk.of_except (e : Except Fault α) : P α (ofExcept e) := by
  cases e with
  | error f => exact hP.fail f
  | ok a => exact hP.answer a

theorem Walk.unless {c : Prop} [Decidable c] (f : Fault) {rest : Unit → Act σ α}
    (hrest : P α (rest ())) : P α (if c then Act.fail f >>= rest else rest ()) := by
  by_cases hc : c
  · rw [if_pos hc]
    exact hP.bind (hP.fail f) fun _ => hrest
  · rw [if_neg hc]
    exact hrest

/-- The lines of a performance begin with words of their own. -/
theorem Walk.tell (line : String)
    (h : Ordinary line := by (repeat with_reducible apply Unlike.append); decide +kernel) :
    P Unit (Act.say line) :=
  hP.say line h

theorem Walk.repeat {m : Nat → Act σ Unit} (hm : ∀ i, P Unit (m i)) (i n : Nat) :
    P Unit (repeatFrom m i n) := by
  induction n generalizing i with
  | zero => exact hP.answer ()
  | succ n ih => exact hP.bind (hm i) fun _ => ih (i + 1)

end Walk

theorem walk_still : Walk fun α (m : Act σ α) => m.Still :=
  ⟨still_answer, still_fail, fun line _ => still_say line, still_read, Still.bind⟩

end Act

namespace Sound.Engine

open Act

section FreeWalk

variable {P : (α : Type) → Act Engine α → Prop} (hP : FreeWalk P)

include hP

theorem walk_sleep (seconds : Value) : P Unit (sleep seconds) := by
  apply hP.bind (hP.of_except _)
  intro length
  apply hP.toWalk.unless
  apply hP.bind hP.read
  intro e
  split
  · exact hP.halt _ nofun
  · exact hP.bind (hP.emit _ nofun) fun _ => hP.change _

theorem walk_wait (n : Nat) : P Unit (waitWithin n) := by
  induction n with
  | zero => exact hP.halt _ nofun
  | succ n ih =>
    apply hP.bind hP.read
    intro e
    split
    · exact hP.pure ()
    · exact hP.bind (walk_sleep hP _) fun _ => ih

theorem walk_await : P Unit awaitSounds :=
  hP.bind hP.read fun _ => walk_wait hP _

theorem walk_start (channels : List Int16 × List Int16) (seconds : Value) :
    P Unit (start channels seconds) := by
  apply hP.bind hP.read
  intro e
  apply hP.bind (hP.of_except _)
  intro length
  apply hP.bind (hP.change _)
  intro _
  apply hP.bind (hP.emit (.started _) nofun)
  intro _
  split
  · exact hP.change _
  · exact walk_sleep hP _

theorem walk_play (frequencies : List Value) (seconds volume : Value) :
    P Unit (play frequencies seconds volume) := by
  rw [play_eq]
  apply hP.bind hP.read
  intro e
  exact hP.bind (hP.of_except _) fun _ => walk_start hP _ _

theorem walk_instrument (name : Value) : P Bool (chooseInstrument name) := by
  apply hP.bind (hP.of_except _)
  intro found
  split
  · exact hP.bind (hP.change _) fun _ => hP.bind (hP.tell _) fun _ => hP.pure _
  · exact hP.bind (hP.tell _) fun _ => hP.pure _

theorem walk_waveform (name : Value) : P Unit (chooseWaveform name) := by
  unfold chooseWaveform
  split
  · split
    · exact hP.change _
    · exact hP.bind (hP.tell _) fun _ => hP.change _
  · exact hP.fail _

theorem walk_set_parallel (mode : Value) : P Unit (setParallel mode) :=
  hP.bind (hP.change _) fun _ => hP.tell _

theorem walk_restore : P Unit restoreMode := by
  apply hP.bind hP.read
  intro e
  split
  · exact hP.bind (hP.change _) fun _ => hP.tell _
  · exact hP.tell _

end FreeWalk

end Sound.Engine

namespace Performance

open Act

def runBlock (inner : Inner) (b : Block) : Performance Unit := do
  inner (← blockCommands b)

section Looking

variable {P : (α : Type) → Performance α → Prop} (hP : Walk P)

include hP

theorem walk_need (name : String) (slot : Slot) : P Value (need name slot) := by
  cases slot with
  | none => exact hP.fail _
  | some v => exact hP.answer v

theorem walk_debug (line : String)
    (h : Ordinary line := by (repeat with_reducible apply Unlike.append); decide +kernel) :
    P Unit (sayIfDebug line) := by
  apply hP.bind hP.read
  intro p
  split
  · exact hP.say line h
  · exact hP.pure ()

theorem walk_lookup (name : Value) : P (Option Value) (lookup name) :=
  hP.bind hP.read fun _ => hP.bind (hP.of_except _) fun _ => hP.pure _

theorem walk_instrument_name : P String instrumentName :=
  hP.bind hP.read fun _ => hP.pure _

theorem walk_duration (duration : Value) : P Float (durationSeconds duration) :=
  hP.bind hP.read fun _ => hP.of_except _

theorem walk_chord_notes (name : Slot) (notes : Value) : P Value (chordNotes name notes) := by
  unfold chordNotes
  split
  · exact hP.pure _
  · split
    · apply hP.bind (walk_lookup hP _)
      intro found
      split
      all_goals exact hP.pure _
    · exact hP.pure _

theorem walk_announce (c : Command) : P Unit (announce c) :=
  hP.bind (hP.of_except _) fun _ => walk_debug hP _

theorem walk_ignore (c : Command) : P Unit (ignore c) :=
  hP.bind (hP.of_except _) fun _ => hP.tell _

theorem walk_builtin (name : String) (b : Function.Builtin) (arguments : Value) :
    P Value (callBuiltin name b arguments) := by
  apply hP.bind hP.read
  intro p
  dsimp only
  split
  · exact hP.bind (hP.tell _) fun _ => hP.pure _
  · exact hP.bind (hP.tell _) fun _ => hP.pure _

theorem walk_argument (argument : Value) : P Value (argumentValue argument) := by
  apply hP.bind hP.read
  intro p
  apply hP.bind (hP.of_except _)
  intro name
  split
  · exact hP.pure _
  · split
    all_goals exact hP.pure _

theorem walk_operand (cs : List Char) : P Value (operand cs) := by
  apply hP.bind (walk_lookup hP _)
  intro found
  split
  · exact hP.pure _
  · split
    · exact hP.pure _
    · split
      all_goals exact hP.pure _

theorem walk_compare (sign cs : List Char) : P Bool (compare sign cs) := by
  unfold compare
  split
  · exact hP.bind (walk_operand hP _) fun _ => hP.bind (walk_operand hP _) fun _ => hP.pure _
  · exact hP.fail _

theorem walk_warning (condition : Value) : P Bool (warnCondition condition) :=
  hP.bind (hP.tell _) fun _ => hP.pure _

theorem walk_holds (condition : Value) : P Bool (holds condition) := by
  have hparts : P Bool (do
      let parts ← ofExcept condition.elements
      if parts.any fun v => v.same (.text "==") || v.same (.text "!=") then
        fail (.notText condition.kind "split")
      else warnCondition condition) := by
    apply hP.bind (hP.of_except _)
    intro parts
    split
    · exact hP.fail _
    · exact walk_warning hP _
  cases condition with
  | text s =>
    unfold holds
    dsimp only
    split
    · exact walk_compare hP _ _
    · split
      · exact hP.bind (walk_compare hP _ _) fun _ => hP.pure _
      · exact walk_warning hP _
  | list items => exact hparts
  | record fields => exact hparts
  | none | bool | int | float => exact hP.fail _

theorem walk_block_commands (b : Block) : P (List Command) (blockCommands b) := by
  cases b with
  | missing => exact hP.answer _
  | value v => exact hP.bind (hP.of_except _) fun _ => hP.pure _
  | commands cs => exact hP.answer _

theorem walk_need_block {α : Type} (name : String) (b : Block) {f : Block → Performance α}
    (hf : P α (f b)) : P α (needBlock name b >>= f) := by
  cases b with
  | missing => exact hP.fail _
  | value v => exact hf
  | commands cs => exact hf

theorem walk_collection (name : Value) : P (Option Value) (findCollection name) := by
  apply hP.bind hP.read
  intro p
  apply hP.bind (hP.of_except _)
  intro text
  split
  all_goals exact hP.bind (hP.tell _) fun _ => hP.pure _

end Looking

section Substitution

variable {P : (α : Type) → Performance α → Prop} (hP : Walk P)

include hP

theorem walk_fallback (what fallback : String) (name v : Value) :
    P Value (orFallback what fallback name v) := by
  have hwarn : P Value (do
      let shown := name.written
      say s!"Aviso: {what} '{shown}' não reconhecida ou não definida."
      return .text fallback) := hP.bind (hP.tell _) fun _ => hP.pure _
  unfold orFallback
  split
  all_goals first
    | exact hwarn
    | exact hP.answer _

theorem walk_fill_duration (duration : Slot) : P Slot (fillDuration duration) :=
  hP.bind (walk_need hP _ _) fun _ => hP.bind (walk_lookup hP _) fun _ =>
    hP.bind (walk_fallback hP _ _ _ _) fun _ => hP.pure _

theorem walk_fill_note (name : Value) (accidental : Slot) :
    P (Value × Slot) (fillNote name accidental) := by
  apply hP.bind (walk_lookup hP name)
  intro found
  split
  · exact hP.pure _
  · split
    · exact hP.bind (hP.of_except _) fun _ => hP.bind (hP.of_except _) fun _ => hP.pure _
    · exact hP.pure _

theorem walk_fill_play (note accidental duration : Slot) :
    P Command (fillPlay note accidental duration) :=
  hP.bind (walk_need hP _ _) fun _ => hP.bind (walk_fill_note hP _ _) fun _ =>
    hP.bind (walk_fallback hP _ _ _ _) fun _ => hP.bind (walk_fill_duration hP _) fun _ => hP.pure _

theorem walk_fill_chord (name notes : Slot) : P Slot (fillChord name notes) := by
  unfold fillChord
  split
  · exact hP.answer _
  · apply hP.bind (walk_lookup hP _)
    intro found
    split
    · exact hP.pure _
    · apply hP.bind (hP.of_except _)
      intro text
      split
      · exact hP.pure _
      · exact hP.bind hP.read fun _ => hP.pure _

theorem walk_fill_play_chord (name notes duration : Slot) :
    P Command (fillPlayChord name notes duration) :=
  hP.bind (walk_fill_chord hP _ _) fun _ => hP.bind (walk_fill_duration hP _) fun _ => hP.pure _

theorem walk_fill_times (times : Slot) : P Slot (fillTimes times) := by
  apply hP.bind (walk_need hP _ _)
  intro v
  split
  · apply hP.bind (walk_lookup hP _)
    intro found
    split
    · exact hP.bind (hP.of_except _) fun _ => hP.pure _
    · exact hP.pure _
  · exact hP.pure _

theorem walk_fill_arguments (items : List Value) : P (List Value) (fillArguments items) := by
  induction items with
  | nil => exact hP.answer _
  | cons v rest ih => exact hP.bind (walk_lookup hP v) fun _ => hP.bind ih fun _ => hP.pure _

theorem walk_keep_all (otherwise : Fault) (items : List Value) :
    P Unit (keepAll otherwise items) := by
  induction items with
  | nil => exact hP.answer _
  | cons v rest ih =>
    apply hP.bind (walk_lookup hP v)
    intro found
    split
    · exact hP.bind (hP.fail _) fun _ => ih
    · exact ih

theorem walk_fill_call (function arguments : Slot) : P Command (fillCall function arguments) := by
  apply hP.bind (walk_need hP _ _)
  intro v
  split
  · exact hP.bind (walk_fill_arguments hP _) fun _ => hP.pure _
  · exact hP.bind (hP.of_except _) fun _ => hP.bind (walk_keep_all hP _ _) fun _ => hP.pure _

theorem walk_kind (v : Value) : P Unit (needKind v) :=
  hP.bind (hP.of_except _) fun _ => hP.pure _

theorem walk_kinds (items : List Value) : P Unit (items.forM needKind) := by
  induction items with
  | nil => exact hP.pure _
  | cons v rest ih => exact hP.bind (walk_kind hP v) fun _ => ih

theorem walk_elements (v : Value) :
    P Block (do
      let items ← ofExcept v.elements
      items.forM needKind
      return .commands (items.map .other)) :=
  hP.bind (hP.of_except _) fun items => hP.bind (walk_kinds hP items) fun _ => hP.pure _

mutual
theorem walk_substitute : ∀ c : Command, P Command (substitute c)
  | .play note accidental duration => walk_fill_play hP note accidental duration
  | .playChord name notes duration => walk_fill_play_chord hP name notes duration
  | .branch _ whenTrue whenFalse => by
    rw [substitute]
    apply hP.bind (walk_substitute_block _ whenTrue)
    intro _
    exact hP.bind (walk_substitute_optional _ whenFalse) fun _ => hP.pure _
  | .loop times body => by
    rw [substitute]
    apply hP.bind (walk_fill_times hP times)
    intro _
    exact hP.bind (walk_substitute_block _ body) fun _ => hP.pure _
  | .forEach _ _ _ body => by
    rw [substitute]
    apply hP.bind (walk_substitute_block _ body)
    intro _
    exact hP.bind (walk_need hP _ _) fun _ => hP.pure _
  | .call function arguments => walk_fill_call hP function arguments
  | .marked _ c => by
    rw [substitute]
    exact hP.bind (walk_substitute c) fun _ => hP.pure _
  | .other v => by
    rw [substitute]
    exact hP.bind (walk_kind hP v) fun _ => hP.pure _
  | .pause _ | .envelope _ _ _ _ | .waveform _ | .instrument _ | .startParallel | .endParallel =>
    hP.answer _

theorem walk_substitute_block (name : String) : ∀ b : Block, P Block (substituteBlock name b)
  | .missing => hP.fail _
  | .value v => walk_elements hP v
  | .commands cs => by
    rw [substituteBlock]
    exact hP.bind (walk_substitute_all cs) fun _ => hP.pure _

theorem walk_substitute_optional (name : String) : ∀ b : Block, P Block (substituteOptional name b)
  | .missing => hP.fail _
  | .value v => by
    cases v with
    | none => exact hP.answer _
    | bool | int | float | text | list | record => exact walk_elements hP _
  | .commands cs => by
    rw [substituteOptional]
    exact hP.bind (walk_substitute_all cs) fun _ => hP.pure _

theorem walk_substitute_all : ∀ cs : List Command, P (List Command) (substituteAll cs)
  | [] => hP.answer _
  | c :: cs => by
    rw [substituteAll]
    apply hP.bind (walk_substitute c)
    intro _
    exact hP.bind (walk_substitute_all cs) fun _ => hP.pure _
end

end Substitution

structure Playing (loud : Bool) (P : (α : Type) → Performance α → Prop) : Prop extends Walk P where
  stop : ∀ reason {m : Performance Unit}, P Unit m → P Unit (stopOnBadValue reason m)
  play : loud = true → ∀ frequencies seconds volume,
    P Unit (sound (Sound.Engine.play frequencies seconds volume))
  sleep : ∀ seconds, P Unit (sound (Sound.Engine.sleep seconds))
  instrument : ∀ name, P Bool (sound (Sound.Engine.chooseInstrument name))
  waveform : ∀ name, P Unit (sound (Sound.Engine.chooseWaveform name))
  envelope : ∀ stages, P Unit (sound (Sound.Engine.chooseEnvelope stages))

def isNote (c : Command) : Bool :=
  match c.core with
  | .play _ _ _ | .playChord _ _ _ => true
  | _ => false

section Playing

variable {loud : Bool} {P : (α : Type) → Performance α → Prop} (hP : Playing loud P)

include hP

theorem Playing.quieter (hloud : loud = true) {loud' : Bool} : Playing loud' P :=
  { hP with play := fun _ => hP.play hloud }

theorem walk_note (hloud : loud = true) (note accidental duration : Slot) :
    P Unit (playNote note accidental duration) := by
  have hW := hP.toWalk
  apply hP.bind (walk_need hW _ _)
  intro note
  apply hP.bind (walk_need hW _ _)
  intro accidental
  apply hP.bind (walk_need hW _ _)
  intro duration
  apply hP.stop
  apply hP.bind (hW.of_except _)
  intro frequency
  apply hP.bind (walk_duration hW _)
  intro seconds
  apply hP.bind (walk_instrument_name hW)
  intro instrument
  exact hP.bind (hW.tell _) fun _ => hP.play hloud _ _ _

theorem walk_chord (hloud : loud = true) (name notes duration : Slot) :
    P Unit (playChord name notes duration) := by
  have hW := hP.toWalk
  apply hP.bind (walk_need hW _ _)
  intro duration
  apply hP.bind (walk_need hW _ _)
  intro notes
  apply hP.stop
  apply hP.bind (walk_chord_notes hW _ _)
  intro notes
  apply hP.bind (walk_duration hW _)
  intro seconds
  apply hP.bind (hW.of_except _)
  intro pitches
  apply hP.bind (walk_instrument_name hW)
  intro instrument
  exact hP.bind (hW.tell _) fun _ => hP.play hloud _ _ _

theorem walk_pause (duration : Slot) : P Unit (pause duration) := by
  have hW := hP.toWalk
  apply hP.bind (walk_need hW _ _)
  intro duration
  apply hP.stop
  apply hP.bind (walk_duration hW _)
  intro seconds
  apply hP.bind (walk_instrument_name hW)
  intro instrument
  exact hP.bind (hW.tell _) fun _ => hP.sleep _

theorem walk_set_envelope (attack decay sustain release : Slot) :
    P Unit (setEnvelope attack decay sustain release) := by
  have hW := hP.toWalk
  apply hP.bind (hP.envelope _)
  intro _
  apply hP.bind hP.read
  intro p
  exact hP.bind (walk_instrument_name hW) fun _ => hW.tell _

theorem walk_set_waveform (name : Slot) : P Unit (setWaveform name) := by
  have hW := hP.toWalk
  apply hP.bind (walk_need hW _ _)
  intro name
  apply hP.bind (hP.waveform name)
  intro _
  apply hP.bind hP.read
  intro p
  exact hP.bind (walk_instrument_name hW) fun _ => hW.tell _

theorem walk_set_instrument (name : Slot) : P Unit (setInstrument name) := by
  have hW := hP.toWalk
  apply hP.bind (walk_need hW _ _)
  intro name
  apply hP.bind (hP.instrument name)
  intro known
  split
  all_goals exact hW.tell _

end Playing

/-- A command is played by the engine or ignored, or it is one of the four that run others. -/
theorem step_cases (c : Command) :
    (∀ {P : (α : Type) → Performance α → Prop}, Playing (isNote c) P →
        ∀ inner, P Unit (step inner c)) ∨
      (∃ condition whenTrue whenFalse, c.core = .branch condition whenTrue whenFalse) ∨
      (∃ times body, c.core = .loop times body) ∨
      (∃ name collection reversed body, c.core = .forEach name collection reversed body) ∨
      ∃ function arguments, c.core = .call function arguments := by
  unfold step isNote
  cases c.core with
  | play note accidental duration => exact .inl fun hP _ => walk_note hP rfl _ _ _
  | playChord name notes duration => exact .inl fun hP _ => walk_chord hP rfl _ _ _
  | pause duration => exact .inl fun hP _ => walk_pause hP _
  | envelope attack decay sustain release => exact .inl fun hP _ => walk_set_envelope hP _ _ _ _
  | waveform name => exact .inl fun hP _ => walk_set_waveform hP _
  | instrument name => exact .inl fun hP _ => walk_set_instrument hP _
  | startParallel | endParallel | marked | other =>
    exact .inl fun hP _ => walk_ignore hP.toWalk _
  | branch condition whenTrue whenFalse => exact .inr (.inl ⟨_, _, _, rfl⟩)
  | loop times body => exact .inr (.inr (.inl ⟨_, _, rfl⟩))
  | forEach name collection reversed body => exact .inr (.inr (.inr (.inl ⟨_, _, _, _, rfl⟩)))
  | call function arguments => exact .inr (.inr (.inr (.inr ⟨_, _, rfl⟩)))

section Blocks

variable {P : (α : Type) → Performance α → Prop} (hP : Walk P) {inner : Inner}

include hP

theorem walk_branch (condition : Slot) {whenTrue whenFalse : Block}
    (ht : P Unit (runBlock inner whenTrue)) (hf : P Unit (runBlock inner whenFalse)) :
    P Unit (branch inner condition whenTrue whenFalse) := by
  apply hP.bind (walk_need hP _ _)
  intro condition
  apply walk_need_block hP
  apply walk_need_block hP
  apply hP.bind (walk_holds hP _)
  intro holding
  split
  · exact hP.bind (hP.tell _) fun _ => ht
  · split
    · exact hP.bind (hP.tell _) fun _ => hf
    · exact hP.tell _

theorem walk_loop (times : Slot) {body : Block} (hb : P Unit (runBlock inner body)) :
    P Unit (loop inner times body) := by
  apply hP.bind (walk_need hP _ _)
  intro times
  apply walk_need_block hP
  apply hP.bind (hP.tell _)
  intro _
  split
  · apply hP.repeat
    intro i
    exact hP.bind (hP.tell _) fun _ => hb
  · exact hP.fail _

theorem walk_items
    (hscope : ∀ f : Scope → Scope, P Unit (change fun p => { p with scope := f p.scope }))
    (name : Value) {body : Block} (hb : P Unit (substituteBlock "comandos" body >>= runBlock inner))
    (items : List Value) : P Unit (forItems inner name body items) := by
  induction items with
  | nil => exact hP.answer ()
  | cons item rest ih =>
    have hbind : P Unit (bindItem name item) :=
      hP.bind (hP.of_except _) fun _ => hscope fun s => s.bind name item
    apply hP.bind hbind
    intro _
    apply hP.bind (hP.of_except _)
    intro shown
    apply hP.bind (hP.tell _)
    intro _
    have hrest := hP.bind hb fun _ => ih
    unfold runBlock at hrest
    simp only [bind_assoc] at hrest
    exact hrest

/-- An iteration runs its body for every item and puts the scope back. -/
theorem walk_iterate
    (hscope : ∀ f : Scope → Scope, P Unit (change fun p => { p with scope := f p.scope }))
    (name collection : Value) (backwards : Bool) {body : Block}
    (hb : P Unit (substituteBlock "comandos" body >>= runBlock inner)) (items : List Value) :
    P Unit (iterate inner name collection backwards body items) := by
  have hitems (line : String) (hline : Ordinary line) (order : List Value) :
      P Unit (do
        say line
        let before := (← read).scope
        forItems inner name body order
        setScope before) := by
    apply hP.bind (hP.say line hline)
    intro _
    apply hP.bind hP.read
    intro p
    exact hP.bind (walk_items hP hscope name hb order) fun _ => hscope fun _ => p.scope
  unfold iterate
  dsimp only
  split
  · apply hP.bind (hP.tell _)
    intro _
    apply hitems
    repeat with_reducible apply Unlike.append
    decide +kernel
  · apply hitems
    repeat with_reducible apply Unlike.append
    decide +kernel

theorem walk_for_each (name collection reversed : Slot) {body : Block}
    (hb : ∀ name collection backwards items,
      P Unit (iterate inner name collection backwards body items)) :
    P Unit (forEach inner name collection reversed body) := by
  apply hP.bind (walk_need hP _ _)
  intro name
  apply hP.bind (walk_need hP _ _)
  intro collection
  apply hP.bind (walk_need hP _ _)
  intro reversed
  apply walk_need_block hP
  apply hP.bind (walk_collection hP _)
  intro found
  split
  · exact hP.pure ()
  · split
    · exact hb _ _ _ _
    · exact hP.tell _

end Blocks

structure Switching (P : (α : Type) → Performance α → Prop) : Prop extends Walk P where
  save : P Unit (sound Sound.Engine.saveMode)
  parallel : ∀ mode, P Unit (sound (Sound.Engine.setParallel mode))
  restore : P Unit (sound Sound.Engine.restoreMode)
  await : P Unit (sound Sound.Engine.awaitSounds)

section Switching

variable {P : (α : Type) → Performance α → Prop} (hP : Switching P)

include hP

theorem walk_await_block : P Unit awaitBlock :=
  hP.bind (hP.tell _) fun _ => hP.await

theorem walk_open : P Unit openParallel :=
  hP.bind (walk_debug hP.toWalk _) fun _ => hP.bind hP.save fun _ => hP.parallel _

theorem walk_close (isOpen : Bool) : P Unit (closeParallel isOpen) := by
  apply hP.bind (walk_debug hP.toWalk _)
  intro _
  cases isOpen with
  | true => exact hP.bind (walk_await_block hP) fun _ => hP.restore
  | false => exact hP.restore

/-- A list has the property if each of its commands has it. -/
theorem walk_run {one : Command → Performance Unit} {cs : List Command}
    (hone : ∀ c ∈ cs, P Unit (one c.core)) (isOpen : Bool) : P Unit (runAll one isOpen cs) := by
  induction cs generalizing isOpen with
  | nil =>
    cases isOpen with
    | true => exact hP.bind (walk_await_block hP) fun _ => hP.restore
    | false => exact hP.pure _
  | cons c cs ih =>
    have hrest (isOpen : Bool) := ih (fun d hd => hone d (List.mem_cons_of_mem c hd)) isOpen
    apply hP.bind (walk_announce hP.toWalk c)
    intro _
    split
    · exact hP.bind (walk_open hP) fun _ => hrest true
    · exact hP.bind (walk_close hP isOpen) fun _ => hrest false
    · exact hP.bind (hone c List.mem_cons_self) fun _ => hrest isOpen

end Switching

end Performance

end Melody
