import Melody.Proofs.Margins

/-!
# A reset parser is like a new one

The debug mode and the errors on record outlive a reset. They stand in the margin of a program,
where no step of loading looks. So nothing that happened before a reset can be told from the
definitions of a file that is loaded next, nor from the verdict on it.
-/

set_option autoImplicit false

namespace Melody.Program

inductive Operation where
  | load (path : String) (file : Source.File)
  | process (text : List Char)
  | debug (on : Bool)
  | forget
  | reset

def Operation.apply (p : Program) : Operation → Program
  | load path file => (loadFile path file p).program
  | process text => (Program.process text p).program
  | debug on => { p with debug := on }
  | forget => { p with mistakes := [] }
  | reset => p.reset

def after (history : List Operation) : Program :=
  history.foldl Operation.apply {}

structure SameDefinitions (p q : Program) : Prop where
  tempo : p.tempo = q.tempo
  instrument : p.instrument = q.instrument
  melodies : p.melodies = q.melodies
  chords : p.chords = q.chords
  globals : p.globals = q.globals
  functions : p.functions = q.functions
  envelope : p.envelope = q.envelope
  waveform : p.waveform = q.waveform
  parallel : p.parallel = q.parallel

def SameSound (m m' : Margin) : Prop :=
  m.instrument = m'.instrument ∧ m.parallel = m'.parallel

theorem same_definitions {p q : Program} (h : Alongside SameSound p q) : SameDefinitions q p := by
  obtain ⟨m, ⟨hinstrument, hparallel⟩, rfl⟩ := h
  exact ⟨rfl, hinstrument.symm, rfl, rfl, rfl, rfl, rfl, rfl, hparallel.symm⟩

/-- The two settings in the margin are set as the text says, whatever else stands there. -/
theorem define_same_sound (cs : List Char) :
    Agree (Alongside SameSound) (define cs) (define cs) := by
  apply define_alongside ⟨rfl, rfl, rfl, rfl, rfl, rfl⟩
  · rintro p q ⟨m, ⟨hinstrument, -⟩, rfl⟩
    exact ⟨⟨{ m with parallel := hasParallelSwitch cs }, ⟨hinstrument, rfl⟩, rfl⟩, rfl⟩
  · rintro p q ⟨m, hsame, rfl⟩
    unfold setInstrument
    split
    · exact ⟨⟨m, hsame, rfl⟩, rfl⟩
    · exact ⟨⟨{ m with instrument := _ }, ⟨rfl, hsame.2⟩, rfl⟩, rfl⟩

theorem accept_program (cs : List Char) (p : Program) :
    (acceptText cs p).program = (process cs { p with mistakes := [] }).program := by
  dsimp only [acceptText]
  repeat' split
  all_goals rfl

theorem accept_accepted (cs : List Char) (p : Program) :
    (acceptText cs p).accepted = ((process cs { p with mistakes := [] }).fault.isNone &&
      (process cs { p with mistakes := [] }).program.mistakes.isEmpty) := by
  dsimp only [acceptText]
  split
  · rename_i hfault
    rw [hfault]
    rfl
  · rename_i hfault
    rw [hfault]
    split <;> simp_all

/-- Programs that differ only in the debug mode and the errors on record get the same verdict on a
text, and the same definitions from it. -/
theorem accept_alongside (cs : List Char) {p q : Program}
    (h : Alongside SameSound { p with mistakes := [] } { q with mistakes := [] }) :
    (acceptText cs q).accepted = (acceptText cs p).accepted ∧
      SameDefinitions (acceptText cs q).program (acceptText cs p).program := by
  obtain ⟨hprogram, hfault⟩ := define_same_sound (flatten cs) _ _ h
  change Alongside SameSound (process cs _).program (process cs _).program at hprogram
  change (process cs _).fault = (process cs _).fault at hfault
  constructor
  · obtain ⟨m, -, hm⟩ := hprogram
    rw [accept_accepted, accept_accepted, ← hfault, hm]
    rfl
  · rw [accept_program, accept_program]
    exact same_definitions hprogram

/-- Loading after a reset starts from the settings of a new program, amid what outlives the reset.
-/
theorem load_after_reset (path : String) (file : Source.File) (p : Program) :
    (loadFile path file p.reset).accepted = (loadFile path file {}).accepted ∧
      SameDefinitions (loadFile path file p.reset).program (loadFile path file {}).program := by
  have hreset : SameDefinitions p.reset {} := ⟨rfl, rfl, rfl, rfl, rfl, rfl, rfl, rfl, rfl⟩
  unfold loadFile
  cases file.read with
  | error problem => cases problem <;> exact ⟨rfl, hreset⟩
  | ok cs =>
    dsimp only [loadText]
    cases Token.validate cs with
    | error f => exact ⟨rfl, ⟨rfl, rfl, rfl, rfl, rfl, rfl, rfl, rfl, rfl⟩⟩
    | ok found =>
      dsimp only
      split
      · exact accept_alongside cs ⟨⟨p.debug, _, _, _⟩, ⟨rfl, rfl⟩, rfl⟩
      · exact ⟨rfl, ⟨rfl, rfl, rfl, rfl, rfl, rfl, rfl, rfl, rfl⟩⟩

/-- After every history a reset makes the program like a new one: a file is accepted or refused as
by a new program, and defines the same. -/
theorem reset_erases_history (history : List Operation) (path : String) (file : Source.File) :
    (loadFile path file (after history).reset).accepted = (loadFile path file {}).accepted ∧
      SameDefinitions (loadFile path file (after history).reset).program
        (loadFile path file {}).program :=
  load_after_reset path file (after history)

end Melody.Program
