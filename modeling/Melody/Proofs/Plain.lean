import Melody.Command.Manner
import Melody.Proofs.Actions

/-!
# What the plain reader writes

The plain reader is an action that appends to a list, and a reading is what such an action leaves
behind: `Writes` says so for one action, and it is carried through the actions put after each
other, the blocks apart and the blocks of the last command. From there every form of a line, every
kind of block and at last the whole plain reader has its reading in closed form. The equations
`read_line_eq`, `read_lines_eq` and `read_nested` hold of both manners, so that what follows need
not ask how a reader goes about its work.
-/

set_option autoImplicit false

namespace Melody.Command

open Melody.Text

namespace Plain

variable {α β : Type}

def ending (fault : Option Fault) (a : α) : Except Halt α :=
  match fault with
  | none => .ok a
  | some f => .error (.fault f)

/-- The action appends the commands of a reading without mistakes to any list, prints its lines
and ends as it does, with this answer if regularly. -/
structure Writes (m : Writer α) (r : Reading) (a : α) : Prop where
  effect : ∀ cs, m cs = ⟨cs ++ r.commands, r.printed.map .printed, ending r.fault a⟩
  mistakes : r.mistakes = []

theorem writes_answer (a : α) : Writes (Act.answer a) .empty a :=
  ⟨fun cs => by simp [Act.answer, Reading.empty, ending], rfl⟩

theorem writes_append (c : Command) : Writes (append c) (.ofCommand c) () :=
  ⟨fun _ => rfl, rfl⟩

theorem writes_extend (block : List Command) :
    Writes (Act.change fun cs => cs ++ block) { commands := block } () :=
  ⟨fun _ => rfl, rfl⟩

theorem writes_say (line : String) : Writes (Act.say line) (.say line) () :=
  ⟨fun cs => by simp [Act.say, Act.emit, Reading.say, ending], rfl⟩

section Together

variable {m : Writer α} {f : α → Writer β} {r s : Reading} {a : α} {b : β}

theorem Writes.bind (hm : Writes m r a) (hf : Writes (f a) s b) :
    Writes (m >>= f) (r.andThen s) b := by
  obtain ⟨commands, printed, mistakes, fault⟩ := r
  cases fault with
  | some e =>
    refine ⟨fun cs => ?_, hm.mistakes⟩
    have hend : (m cs).outcome = .error (.fault e) := by rw [hm.effect]; rfl
    rw [Act.bind_of_error hend, hm.effect]
    rfl
  | none =>
    refine ⟨fun cs => ?_, ?_⟩
    · have hend : (m cs).outcome = .ok a := by rw [hm.effect]; rfl
      rw [Act.bind_of_ok hend, hm.effect, hf.effect]
      simp only [Reading.andThen, List.append_assoc, List.map_append]
    · have hmistakes : mistakes = [] := hm.mistakes
      simp only [Reading.andThen, hmistakes, hf.mistakes, List.append_nil]

theorem Writes.of_fault (e : Fault) : Writes (Act.ofExcept (.error e) >>= f) (.ofFault e) b :=
  ⟨fun cs => by
    rw [Act.bind_of_error rfl]
    simp [Act.ofExcept, Act.fail, Act.halt, Reading.ofFault, ending], rfl⟩

end Together

/-- On a list of its own the action leaves its commands as the answer. -/
theorem Writes.apart {m : Writer Unit} {r : Reading} (h : Writes m r ()) :
    Writes (apart m) { r with commands := [] } r.commands := by
  refine ⟨fun cs => ?_, h.mistakes⟩
  simp only [Plain.apart, h.effect, List.nil_append, List.append_nil]
  cases r.fault <;> rfl

theorem whole_eq (r : Reading) (f : List Command → List Command) :
    r.whole f = ({ r with commands := [] } : Reading).andThen { commands := f r.commands } := by
  obtain ⟨commands, printed, mistakes, fault⟩ := r
  cases fault with
  | some e => rfl
  | none => simp [Reading.whole, Reading.gather, Reading.andThen]

/-- An action that fills the block of the one command written in front of it. Its block is empty
so far, so that nothing changes if that action has not come to its end. -/
theorem Writes.on_last {m b : Writer Unit} {r s : Reading} {c : Command}
    (set : List Command → Command → Command) (hm : Writes m (r.gather fun _ => [c]) ())
    (hb : Writes b s ()) (hempty : set [] c = c) :
    Writes (m >>= fun _ => onLast set b)
      (({ r with commands := [] } : Reading).andThen s
        |>.gather fun block => [set block c]) () := by
  obtain ⟨commands, printed, mistakes, fault⟩ := r
  cases fault with
  | some e =>
    refine ⟨fun cs => ?_, hm.mistakes⟩
    have hend : (m cs).outcome = .error (.fault e) := by rw [hm.effect]; rfl
    rw [Act.bind_of_error hend, hm.effect]
    simp only [Reading.gather, Reading.andThen, hempty, ending]
  | none =>
    refine ⟨fun cs => ?_, ?_⟩
    · have hend : (m cs).outcome = .ok () := by rw [hm.effect]; rfl
      rw [Act.bind_of_ok hend, hm.effect]
      simp [onLast, hb.effect, Reading.gather, Reading.andThen]
    · have hmistakes : mistakes = [] := hm.mistakes
      simp only [Reading.gather, Reading.andThen, hmistakes, hb.mistakes, List.append_nil]

end Plain

def unrecognisedReading (manner : Manner) (line : List Char) : Reading :=
  if (strip line).isEmpty then .empty
  else
    match manner with
    | .plain => warnUnrecognised line
    | .diagnosing => diagnose line

def lineReading (manner : Manner) (ctx : Context) (line : List Char) : Reading :=
  match Line.recognise line with
  | some .startParallel => .ofCommand .startParallel
  | some .endParallel => .ofCommand .endParallel
  | some (.literalChord notes duration) =>
    .ofCommand (.playChord none (some (.list ((words notes).map literalNote)))
      (textSlot duration))
  | some (.named name duration) => readNamed ctx name duration
  | some (.note name accidental duration) => .ofCommand (ofNote name accidental duration)
  | some (.pause duration) => .ofCommand (.pause (textSlot duration))
  | some (.envelope attack decay sustain release) => readEnvelope attack decay sustain release
  | some (.waveform name) => .ofCommand (.waveform (textSlot name))
  | some (.instrument name) => .ofCommand (.instrument (textSlot name))
  | some (.call name arguments) =>
    if ctx.functions.contains (String.ofList name) then readCall name arguments
    else
      match manner with
      | .plain => .empty
      | .diagnosing => unrecognisedReading .diagnosing line
  | none => unrecognisedReading manner line

namespace Plain

section Forms

variable (ctx : Context)

theorem of_except_chain {σ α β γ : Type} (e : Except Fault α) (f : α → Except Fault β)
    (g : β → Act σ γ) : (Act.ofExcept e >>= fun a => Act.ofExcept (f a) >>= g) =
      Act.ofExcept (e >>= f) >>= g := by
  cases e with
  | error x => rfl
  | ok a => rfl

theorem undigited {cs : List Char} (h : firstDigits cs = []) {c : Char} (hc : c ∈ cs) :
    !isDecimal c := by
  rw [firstDigits] at h
  induction cs with
  | nil => contradiction
  | cons d cs ih =>
    cases hd : isDecimal d with
    | true => simp [hd] at h
    | false =>
      rw [List.dropWhile_cons_of_pos (by simp [hd])] at h
      rcases List.mem_cons.mp hc with rfl | hc
      · simp [hd]
      · exact ih h hc

theorem chord_note_eq (spelling : List Char) : chordNote spelling = literalNote spelling := by
  simp only [chordNote, literalNote]
  cases hempty : (firstDigits spelling).isEmpty with
  | false => rfl
  | true =>
    -- without a first digit there is none to take out
    have hnone : firstDigits spelling = [] := List.isEmpty_iff.mp hempty
    have hbare : (spelling.filter fun c => !isDecimal c) = spelling :=
      List.filter_eq_self.mpr fun c hc => undigited hnone hc
    simp only [hbare, hnone, List.append_nil, if_true]

theorem literal_chord_writes (notes duration : List Char) :
    Writes (playLiteralChord notes duration)
      (.ofCommand (.playChord none (some (.list ((words notes).map literalNote)))
        (textSlot duration))) () := by
  have hnotes : (words (strip notes)).map chordNote = (words notes).map literalNote := by
    rw [words_strip]
    exact List.map_congr_left fun spelling _ => chord_note_eq spelling
  rw [playLiteralChord, hnotes]
  exact writes_append _

theorem named_writes (name duration : List Char) :
    Writes (playNoteOrChord ctx name duration) (readNamed ctx name duration) () := by
  unfold playNoteOrChord readNamed
  cases ctx.chords.find? (String.ofList name) with
  | none => exact writes_append _
  | some notes =>
    simp only [of_except_chain]
    cases notes.elements >>= fun vs => vs.mapM Value.noteSpelling with
    | error f => exact .of_fault f
    | ok spellings => exact (writes_append _).bind (f := fun _ => Act.say _) (writes_say _)

theorem envelope_writes (attack decay sustain release : List Char) :
    Writes (configureEnvelope attack decay sustain release)
      (readEnvelope attack decay sustain release) () := by
  unfold configureEnvelope readEnvelope
  cases parseFloat attack with
  | error f => exact .of_fault f
  | ok a =>
  rw [Act.of_except_bind]
  cases parseFloat decay with
  | error f => exact .of_fault f
  | ok d =>
  rw [Act.of_except_bind]
  cases parseFloat sustain with
  | error f => exact .of_fault f
  | ok s =>
  rw [Act.of_except_bind]
  cases parseFloat release with
  | error f => exact .of_fault f
  | ok r => exact writes_append _

theorem call_writes (name arguments : List Char) :
    Writes (callFunction ctx name arguments)
      (if ctx.functions.contains (String.ofList name) then readCall name arguments else .empty)
      () := by
  unfold callFunction
  split
  · exact (writes_append _).bind (f := fun _ => Act.say _) (writes_say _)
  · exact writes_answer ()

theorem warn_writes (line : List Char) :
    Writes (warn line) (if (strip line).isEmpty then .empty else warnUnrecognised line) () := by
  unfold warn
  split
  · exact writes_answer ()
  · exact writes_say _

end Forms

section Recognised

variable {cs : List Char} {form : Line}

theorem literal_chord_form (h : Line.literalChord? cs = some form) :
    ∃ notes duration, form = .literalChord notes duration := by
  simp only [Line.literalChord?, Option.bind_eq_bind, Option.bind_eq_some_iff] at h
  obtain ⟨-, -, -, -, ⟨notes, rest⟩, -, h⟩ := h
  split at h
  · contradiction
  · obtain ⟨duration, -, h⟩ := Option.bind_eq_some_iff.mp h
    exact ⟨notes, duration, (Option.some.inj h).symm⟩

theorem named_form (h : Line.named? cs = some form) :
    ∃ name duration, form = .named name duration := by
  simp only [Line.named?, Option.bind_eq_bind, Option.bind_eq_some_iff] at h
  obtain ⟨-, -, ⟨name, rest⟩, -, rest', -, h⟩ := h
  split at h
  · contradiction
  · obtain ⟨⟨duration, _⟩, -, h⟩ := Option.bind_eq_some_iff.mp h
    exact ⟨name, duration, (Option.some.inj h).symm⟩

def IsNote (form : Line) : Prop :=
  ∃ name sign duration, form = .note name sign duration

theorem spaced_accidental_form (h : Line.spacedAccidental? cs = some form) : IsNote form := by
  simp only [Line.spacedAccidental?, Option.bind_eq_bind, Option.bind_eq_some_iff] at h
  obtain ⟨-, -, ⟨name, _⟩, -, -, -, ⟨sign, _⟩, -, duration, -, h⟩ := h
  exact ⟨name, some sign, duration, (Option.some.inj h).symm⟩

theorem joined_accidental_form (h : Line.joinedAccidental? cs = some form) : IsNote form := by
  simp only [Line.joinedAccidental?, Option.bind_eq_bind, Option.bind_eq_some_iff] at h
  obtain ⟨-, -, ⟨name, rest⟩, -, h⟩ := h
  split at h
  · obtain ⟨duration, -, h⟩ := Option.bind_eq_some_iff.mp h
    exact ⟨name, some '#', duration, (Option.some.inj h).symm⟩
  · simp only [Option.bind_eq_some_iff] at h
    obtain ⟨base, -, duration, -, h⟩ := h
    exact ⟨base, some 'b', duration, (Option.some.inj h).symm⟩

theorem with_octave_form (h : Line.withOctave? cs = some form) : IsNote form := by
  simp only [Line.withOctave?, Option.bind_eq_bind, Option.bind_eq_some_iff] at h
  obtain ⟨-, -, ⟨name, rest⟩, -, h⟩ := h
  split at h
  · obtain ⟨duration, -, h⟩ := Option.bind_eq_some_iff.mp h
    exact ⟨name, none, duration, (Option.some.inj h).symm⟩
  · contradiction

theorem spaced_accidental_octave_form (h : Line.spacedAccidentalOctave? cs = some form) :
    IsNote form := by
  simp only [Line.spacedAccidentalOctave?, Option.bind_eq_bind, Option.bind_eq_some_iff] at h
  obtain ⟨-, -, ⟨name, _⟩, -, -, -, ⟨sign, _⟩, -, ⟨octave, _⟩, -, duration, -, h⟩ := h
  exact ⟨name ++ octave, some sign, duration, (Option.some.inj h).symm⟩

theorem joined_accidental_octave_form (h : Line.joinedAccidentalOctave? cs = some form) :
    IsNote form := by
  simp only [Line.joinedAccidentalOctave?, Option.bind_eq_bind, Option.bind_eq_some_iff] at h
  obtain ⟨-, -, ⟨name, rest⟩, -, h⟩ := h
  split at h
  · simp only [Option.bind_eq_some_iff] at h
    obtain ⟨⟨octave, _⟩, -, duration, -, h⟩ := h
    exact ⟨name ++ octave, some '#', duration, (Option.some.inj h).symm⟩
  · obtain ⟨base, -, h⟩ := Option.bind_eq_some_iff.mp h
    split at h
    · contradiction
    · obtain ⟨duration, -, h⟩ := Option.bind_eq_some_iff.mp h
      exact ⟨_, some 'b', duration, (Option.some.inj h).symm⟩

def IsEnvelope (form : Line) : Prop :=
  ∃ attack decay sustain release, form = .envelope attack decay sustain release

theorem inline_envelope_form (h : Line.inlineEnvelope? cs = some form) : IsEnvelope form := by
  simp only [Line.inlineEnvelope?, Option.bind_eq_bind, Option.bind_eq_some_iff] at h
  obtain ⟨-, -, ⟨attack, _⟩, -, ⟨decay, _⟩, -, ⟨sustain, _⟩, -, ⟨release, _⟩, -, h⟩ := h
  exact ⟨attack, decay, sustain, release, (Option.some.inj h).symm⟩

theorem block_envelope_form (h : Line.blockEnvelope? cs = some form) : IsEnvelope form := by
  simp only [Line.blockEnvelope?, Option.bind_eq_bind, Option.bind_eq_some_iff] at h
  obtain ⟨-, -, -, -, ⟨attack, _⟩, -, ⟨decay, _⟩, -, ⟨sustain, _⟩, -, ⟨release, _⟩, -, -, -, h⟩ := h
  exact ⟨attack, decay, sustain, release, (Option.some.inj h).symm⟩

theorem call_form (h : Line.call? cs = some form) :
    ∃ name arguments, form = .call name arguments := by
  simp only [Line.call?, Option.bind_eq_bind, Option.bind_eq_some_iff] at h
  obtain ⟨⟨name, _⟩, -, -, -, ⟨arguments, _⟩, -, h⟩ := h
  exact ⟨name, strip arguments, (Option.some.inj h).symm⟩

end Recognised

/-- The chain of forms comes to the first form that recognises the line. -/
theorem line_writes (ctx : Context) (line : List Char) :
    Writes (processLine ctx line) (lineReading .plain ctx line) () := by
  unfold processLine lineReading Line.recognise
  simp only [Line.forms, List.findSome?_cons]
  cases dropText? "inicio_paralelo".toList line with
  | some _ => exact writes_append _
  | none =>
  cases dropText? "fim_paralelo".toList line with
  | some _ => exact writes_append _
  | none =>
  cases hform : Line.literalChord? line with
  | some form =>
    obtain ⟨notes, duration, rfl⟩ := literal_chord_form hform
    exact literal_chord_writes notes duration
  | none =>
  cases hform : Line.named? line with
  | some form =>
    obtain ⟨name, duration, rfl⟩ := named_form hform
    exact named_writes ctx name duration
  | none =>
  cases hform : Line.spacedAccidental? line with
  | some form =>
    obtain ⟨name, sign, duration, rfl⟩ := spaced_accidental_form hform
    exact writes_append _
  | none =>
  cases hform : Line.joinedAccidental? line with
  | some form =>
    obtain ⟨name, sign, duration, rfl⟩ := joined_accidental_form hform
    exact writes_append _
  | none =>
  cases hform : Line.withOctave? line with
  | some form =>
    obtain ⟨name, sign, duration, rfl⟩ := with_octave_form hform
    exact writes_append _
  | none =>
  cases hform : Line.spacedAccidentalOctave? line with
  | some form =>
    obtain ⟨name, sign, duration, rfl⟩ := spaced_accidental_octave_form hform
    exact writes_append _
  | none =>
  cases hform : Line.joinedAccidentalOctave? line with
  | some form =>
    obtain ⟨name, sign, duration, rfl⟩ := joined_accidental_octave_form hform
    exact writes_append _
  | none =>
  cases Line.keywordWord? "pausa" line with
  | some duration => exact writes_append _
  | none =>
  cases hform : Line.inlineEnvelope? line with
  | some form =>
    obtain ⟨attack, decay, sustain, release, rfl⟩ := inline_envelope_form hform
    exact envelope_writes attack decay sustain release
  | none =>
  cases hform : Line.blockEnvelope? line with
  | some form =>
    obtain ⟨attack, decay, sustain, release, rfl⟩ := block_envelope_form hform
    exact envelope_writes attack decay sustain release
  | none =>
  cases Line.keywordWord? "configurar_forma_onda" line with
  | some name => exact writes_append _
  | none =>
  cases Line.keywordWord? "instrumento" line with
  | some name => exact writes_append _
  | none =>
  cases hform : Line.call? line with
  | some form =>
    obtain ⟨name, arguments, rfl⟩ := call_form hform
    exact call_writes ctx name arguments
  | none => exact warn_writes line

theorem each_writes (ctx : Context) (pieces : List (List Char)) :
    Writes (processEach ctx pieces)
      (.sequence (((pieces.map strip).filter fun l => !l.isEmpty).map (lineReading .plain ctx)))
      () := by
  induction pieces with
  | nil => exact writes_answer ()
  | cons piece pieces ih =>
    cases hempty : (strip piece).isEmpty with
    | true => simpa [processEach, hempty] using ih
    | false =>
      have hwritten :=
        (line_writes ctx (strip piece)).bind (f := fun _ => processEach ctx pieces) ih
      simpa [processEach, hempty, Reading.sequence] using hwritten

theorem lines_write (ctx : Context) (cs : List Char) :
    Writes (processLines ctx cs)
      (.sequence ((statementLines cs).map (lineReading .plain ctx))) () :=
  each_writes ctx _

section Blocks

variable {p : Processor} {rs : Readers} (hbody : ∀ cs, Writes (p.melody cs) (rs.body cs) ())
  (hlines : ∀ cs, Writes (p.lines cs) (rs.lines cs) ())

section Bodies

include hbody

theorem conditional_writes (c : Conditional) :
    Writes (writeConditional p c) (readConditional rs c) () := by
  have htrue := (writes_append (.branch (textSlot c.condition) (.commands [])
    (if c.whenFalse.isEmpty then .value .none else .commands []))).on_last
      (r := .empty) setWhenTrue (hbody c.whenTrue) rfl
  cases hempty : c.whenFalse.isEmpty with
  | true =>
    have hwritten := htrue.bind (f := fun _ => Act.answer ()) (writes_answer ())
    rw [Act.bind_assoc, Reading.and_then_empty] at hwritten
    simp only [hempty, if_true] at hwritten
    simp only [writeConditional, readConditional, hempty, if_true, Reading.and_then_empty]
    exact hwritten
  | false =>
    simp only [hempty, Bool.false_eq_true, if_false] at htrue
    have hwritten := Writes.on_last (r := rs.body c.whenTrue) setWhenFalse htrue
      (hbody c.whenFalse) rfl
    rw [Act.bind_assoc] at hwritten
    simp only [writeConditional, readConditional, hempty, Bool.false_eq_true, if_false]
    exact hwritten

theorem iteration_writes (i : Iteration) :
    Writes (writeIteration p i) (readIteration rs i) () :=
  (writes_append _).on_last (r := .empty) setBody (hbody i.body) rfl

theorem repetition_writes (r : Repetition) :
    Writes (writeRepetition p r) (readRepetition rs r) () := by
  unfold writeRepetition readRepetition
  cases parseInt r.times with
  | error f => exact .of_fault f
  | ok n =>
    rw [Act.of_except_bind]
    simp only [whole_eq]
    exact (hbody r.body).apart.bind (writes_append _)

end Bodies

include hlines

theorem finds_write {α : Type} {write : α → Writer Unit} {read : α → Reading}
    (hwrite : ∀ a, Writes (write a) (read a) ()) (cs : List Char) (place : Nat)
    (finds : List (Found α)) :
    Writes (findsFrom p write cs place finds) (readFinds rs read cs place finds).reading
      (readFinds rs read cs place finds).place := by
  induction finds generalizing place with
  | nil => exact writes_answer place
  | cons found finds ih =>
    exact (hlines _).bind ((hwrite found.item).bind (ih (found.stop + place)))

include hbody

theorem parallels_write (cs : List Char) (place : Nat) (finds : List (Found (List Char))) :
    Writes (parallelsFrom p cs place finds) (readParallels rs cs place finds).reading
      (readParallels rs cs place finds).place := by
  induction finds generalizing place with
  | nil => exact writes_answer place
  | cons found finds ih =>
    have hclosed (block : List Command) (more : Reading) :
        ({ commands := block ++ [.endParallel] } : Reading).andThen more =
          ({ commands := block } : Reading).andThen
            ((Reading.ofCommand .endParallel).andThen more) := by
      simp [Reading.andThen, Reading.ofCommand]
    simp only [readParallels, whole_eq, Reading.and_then_assoc, hclosed]
    exact (hlines _).bind ((writes_append _).bind ((hbody _).apart.bind
      ((writes_extend _).bind ((writes_append _).bind (ih found.stop)))))

theorem searches_write (cs : List Char) :
    Writes (do
        let place ← processParallels p cs 0
        let place ← processConditionals p cs place
        let place ← processIterations p cs place
        let place ← processRepetitions p cs place
        p.lines (cs.drop place))
      (readSearches rs cs) () := by
  simp only [readSearches, search, Reading.and_then_assoc]
  exact (parallels_write hbody hlines cs 0 _).bind
    ((finds_write hlines (conditional_writes hbody) cs _ _).bind
      ((finds_write hlines (iteration_writes hbody) cs _ _).bind
        ((finds_write hlines (repetition_writes hbody) cs _ _).bind (hlines _))))

end Blocks

/-- At every depth the plain reader writes what the searches read with its lines. -/
theorem nested_writes (ctx : Context) (depth : Nat) (cs : List Char) :
    Writes (processNested ctx depth cs)
      (readNested (fun v => .sequence ((statementLines v).map (lineReading .plain ctx))) depth cs)
      () := by
  induction depth generalizing cs with
  | zero => exact writes_answer ()
  | succ depth ih => exact searches_write ih (lines_write ctx) cs

theorem reading_of_writes {m : Writer Unit} {r : Reading} (h : Writes m r ()) :
    Reading.ofWriter m = r := by
  obtain ⟨commands, printed, mistakes, fault⟩ := r
  have hprinted : (printed.map Event.printed).filterMap Event.line? = printed := by
    simp [List.filterMap_map, Function.comp_def, Event.line?]
  have hmistakes : mistakes = [] := h.mistakes
  simp only [Reading.ofWriter, h.effect, hprinted, hmistakes, List.nil_append]
  cases fault with
  | none => rfl
  | some f => rfl

end Plain

theorem read_line_eq (manner : Manner) (ctx : Context) (line : List Char) :
    readLine manner ctx line = lineReading manner ctx line := by
  cases manner with
  | diagnosing => rfl
  | plain => exact Plain.reading_of_writes (Plain.line_writes ctx line)

theorem read_lines_eq (manner : Manner) (ctx : Context) (cs : List Char) :
    readLines manner ctx cs = .sequence ((statementLines cs).map (readLine manner ctx)) := by
  cases manner with
  | diagnosing => rfl
  | plain =>
    have hlines : readLine .plain ctx = lineReading .plain ctx := funext (read_line_eq .plain ctx)
    rw [hlines]
    exact Plain.reading_of_writes (Plain.lines_write ctx cs)

theorem read_lines_nil (manner : Manner) (ctx : Context) : readLines manner ctx [] = .empty := by
  rw [read_lines_eq]
  rfl

theorem read_nested (manner : Manner) (ctx : Context) (cs : List Char) :
    read manner ctx cs = readNested (readLines manner ctx) (cs.length + 1) cs := by
  cases manner with
  | diagnosing => rfl
  | plain =>
    have hlines : readLines .plain ctx =
        fun v => .sequence ((statementLines v).map (lineReading .plain ctx)) :=
      funext fun v => Plain.reading_of_writes (Plain.lines_write ctx v)
    rw [hlines]
    exact Plain.reading_of_writes (Plain.nested_writes ctx (cs.length + 1) cs)

end Melody.Command
