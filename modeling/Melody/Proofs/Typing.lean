import Melody.Proofs.Acceptance
import Melody.Proofs.Manners
import Melody.Proofs.Marks
import Melody.Proofs.Nesting
import Melody.Proofs.Rendering

/-!
# The kinds of values in commands

The fields of a command are values of any kind, but those of a command that was read are of the kind
that their use expects: names are texts, chords are lists of notes, numbers of repetitions are
integers. `Typed` says so of a command and of all its blocks. It also asks of what the command
mentions, such as its notes, conditions and functions, to be in a vocabulary, and that blocks nest
no deeper than a given depth. Reading gives typed commands, and loading gives them to melodies.
-/

set_option autoImplicit false

namespace Melody

/-- What commands may mention: the names of notes, the arguments of calls, conditions, envelopes,
and the functions that may be called with some depth left. `deep` is granted where no depth is
left. -/
structure Vocabulary where
  note : String → Prop
  argument : String → Prop
  condition : String → Prop
  envelope : Envelope Float → Prop
  callee : Nat → String → Prop
  deep : Prop

namespace Vocabulary

def all : Vocabulary :=
  ⟨fun _ => True, fun _ => True, fun _ => True, fun _ => True, fun _ _ => True, True⟩

variable (V : Vocabulary)

def IsNote (v : Value) : Prop :=
  ∃ name accidental, v = Command.noteValue name accidental ∧ V.note (String.ofList name)

def IsChord (v : Value) : Prop :=
  ∃ notes, v = .list notes ∧ ∀ n ∈ notes, V.IsNote n

def IsArguments (v : Value) : Prop :=
  ∃ items, v = .list items ∧ ∀ a ∈ items, ∃ s, a = .text s ∧ V.argument s

end Vocabulary

namespace Command

open Melody.Text

def HoldsText (P : String → Prop) (slot : Slot) : Prop :=
  ∃ s, slot = some (.text s) ∧ P s

def IsText : Slot → Prop :=
  HoldsText fun _ => True

theorem is_text (cs : List Char) : IsText (textSlot cs) :=
  ⟨_, rfl, trivial⟩

section Typed

variable (V : Vocabulary)

mutual
/-- A command whose fields are of the kinds that their use expects, at all levels of its blocks, and
mention only what is in the vocabulary. The number is the depth that is left for its blocks and its
call. -/
def Typed : Command → Nat → Prop
  | .play note accidental duration, _ =>
    HoldsText V.note note ∧ (∃ sign, accidental = some sign ∧ Theory.IsSign sign) ∧ IsText duration
  | .playChord name notes duration, _ =>
    (name = none ∨ IsText name) ∧ (∃ v, notes = some v ∧ V.IsChord v) ∧ IsText duration
  | .pause duration, _ => IsText duration
  | .envelope attack decay sustain release, _ =>
    ∃ e : Envelope Float, V.envelope e ∧ attack = some (.float e.attack) ∧
      decay = some (.float e.decay) ∧ sustain = some (.float e.sustain) ∧
      release = some (.float e.release)
  | .waveform name, _ => IsText name
  | .instrument name, _ => IsText name
  | .startParallel, _ => True
  | .endParallel, _ => True
  | .branch condition whenTrue whenFalse, depth =>
    HoldsText V.condition condition ∧ TypedBlock whenTrue depth ∧
      (whenFalse = .value .none ∨ TypedBlock whenFalse depth)
  | .loop times body, depth => (∃ n, times = some (.int n)) ∧ TypedBlock body depth
  | .forEach name collection reversed body, depth =>
    IsText name ∧ IsText collection ∧ (∃ b, reversed = some (.bool b)) ∧ TypedBlock body depth
  | .call function arguments, depth =>
    HoldsText (V.callee depth) function ∧ ∃ v, arguments = some v ∧ V.IsArguments v
  | .marked _ _, _ => False
  | .other _, _ => False

def TypedBlock : Block → Nat → Prop
  | .commands cs, depth => (depth = 0 → V.deep) ∧ AllTyped cs (depth - 1)
  | .missing, _ => False
  | .value _, _ => False

def AllTyped : List Command → Nat → Prop
  | [], _ => True
  | c :: cs, depth => Typed c depth ∧ AllTyped cs depth
end

def Ready (cs : List Command) (depth : Nat) : Prop :=
  TypedBlock V (.commands cs) depth

variable {V}

theorem all_typed_iff {cs : List Command} {depth : Nat} :
    AllTyped V cs depth ↔ ∀ c ∈ cs, Typed V c depth := by
  induction cs with
  | nil => simp [AllTyped]
  | cons c cs ih => simp [AllTyped, ih]

theorem ready_iff {cs : List Command} {depth : Nat} :
    Ready V cs depth ↔ (depth = 0 → V.deep) ∧ ∀ c ∈ cs, Typed V c (depth - 1) := by
  rw [← all_typed_iff]
  rfl

end Typed

def Formed (c : Command) : Prop :=
  ∀ depth, Typed .all c depth

theorem formed_ready {cs : List Command} (h : ∀ c ∈ cs, Formed c) (depth : Nat) :
    Ready .all cs depth :=
  ready_iff.mpr ⟨fun _ => trivial, fun c hc => h c hc _⟩

theorem formed_builds : Builds Formed Formed where
  within := id
  start _ := trivial
  stop _ := trivial
  branch condition _ htrue depth := ⟨is_text condition, formed_ready htrue depth, .inl rfl⟩
  choice condition _ _ htrue hfalse depth :=
    ⟨is_text condition, formed_ready htrue depth, .inr (formed_ready hfalse depth)⟩
  forEach name collection _ _ hbody depth :=
    ⟨is_text name, is_text collection, ⟨_, rfl⟩, formed_ready hbody depth⟩
  loop _ _ hbody depth := ⟨⟨_, rfl⟩, formed_ready hbody depth⟩

def Context.Formed (ctx : Context) : Prop :=
  ∀ name v, ctx.chords.find? name = some v → Vocabulary.all.IsChord v

theorem sign_of_accidental (accidental : Option Char) :
    Theory.IsSign ((accidental.map fun c => Value.text c.toString).getD .none) := by
  cases accidental with
  | none => exact .inl rfl
  | some c => exact .inr ⟨_, rfl⟩

theorem note_name (name : List Char) (accidental : Option Char) :
    (noteValue name accidental).fieldOf "nota" = .ok (.text (String.ofList name)) :=
  rfl

theorem note_accidental (name : List Char) (accidental : Option Char) :
    ∃ sign, (noteValue name accidental).fieldOf "modificador" = .ok sign ∧ Theory.IsSign sign :=
  ⟨_, rfl, sign_of_accidental accidental⟩

section Reading

variable {ctx : Context} (hctx : ctx.Formed)

theorem formed_note (name : List Char) (accidental : Option Char) (duration : List Char) :
    Formed (ofNote name accidental duration) :=
  fun _ => ⟨is_text name, ⟨_, rfl, sign_of_accidental accidental⟩, is_text duration⟩

include hctx

theorem read_line_formed (manner : Manner) (line : List Char) :
    (readLine manner ctx line).All Formed := by
  apply all_line
  intro form c _ hgives _
  cases hgives with
  | startParallel => exact trivial
  | endParallel => exact trivial
  | literalChord notes duration =>
    refine ⟨.inl rfl, ⟨_, rfl, _, rfl, ?_⟩, is_text duration⟩
    intro v hv
    obtain ⟨w, -, rfl⟩ := List.mem_map.mp hv
    exact ⟨_, _, rfl, trivial⟩
  | @chord name notes duration hnotes =>
    exact ⟨.inr (is_text name), ⟨notes, rfl, hctx _ _ hnotes⟩, is_text duration⟩
  | named name duration => exact formed_note name none duration _
  | note name accidental duration => exact formed_note name accidental duration _
  | pause duration => exact is_text duration
  | envelope attack decay sustain release a d s r =>
    exact ⟨⟨a, d, s, r⟩, trivial, rfl, rfl, rfl, rfl⟩
  | waveform name => exact is_text name
  | instrument name => exact is_text name
  | call name arguments =>
    refine ⟨is_text name, _, rfl, _, rfl, ?_⟩
    intro v hv
    unfold callArguments at hv
    split_ifs at hv
    · cases hv
    · obtain ⟨argument, -, rfl⟩ := List.mem_map.mp hv
      exact ⟨_, rfl, trivial⟩

theorem read_lines_formed (manner : Manner) (cs : List Char) :
    (readLines manner ctx cs).All Formed := by
  rw [read_lines_eq]
  apply Reading.all_sequence
  intro r hr
  obtain ⟨line, -, rfl⟩ := List.mem_map.mp hr
  exact read_line_formed hctx manner line

/-- Every text is read into formed commands. -/
theorem read_formed (manner : Manner) (cs : List Char) : (read manner ctx cs).All Formed :=
  formed_builds.read (read_lines_formed hctx manner) cs

end Reading

end Command

theorem Table.find_bind {α : Type} {t : Table α} {name key : String} {a v : α}
    (h : (t.bind name a).find? key = some v) : v = a ∨ t.find? key = some v := by
  unfold Table.find? at h ⊢
  induction t with
  | nil =>
    rw [Table.bind, List.lookup_cons] at h
    cases hkey : key == name with
    | true =>
      simp only [hkey] at h
      exact .inl (Option.some.inj h).symm
    | false =>
      simp only [hkey] at h
      cases h
  | cons entry rest ih =>
    obtain ⟨first, b⟩ := entry
    rw [List.lookup_cons]
    by_cases hname : first = name
    · rw [Table.bind, if_pos hname, List.lookup_cons] at h
      cases hkey : key == first with
      | true =>
        simp only [hkey] at h
        exact .inl (Option.some.inj h).symm
      | false =>
        simp only [hkey] at h
        exact .inr h
    · rw [Table.bind, if_neg hname, List.lookup_cons] at h
      cases hkey : key == first with
      | true =>
        simp only [hkey] at h
        exact .inr h
      | false =>
        simp only [hkey] at h
        exact ih h

namespace Program

structure Formed (p : Program) : Prop where
  tempo : ∃ n, p.tempo = .int n
  chords : p.context.Formed
  melodies : ∀ name cs, p.melodies.find? name = some cs → ∀ c ∈ cs, Command.Formed c

theorem formed_chord (c : ChordText) {p : Program} (hp : p.Formed) :
    (addChord c p).program.Formed := by
  refine ⟨hp.tempo, ?_, hp.melodies⟩
  intro name v hv
  rcases Table.find_bind hv with rfl | hv
  · refine ⟨_, rfl, ?_⟩
    intro note hnote
    obtain ⟨w, -, rfl⟩ := List.mem_map.mp hnote
    exact ⟨_, _, rfl, trivial⟩
  · exact hp.chords name v hv

theorem formed_melody (cs : List Char) (found : Text.Found (List Char)) {p : Program}
    (hp : p.Formed) : (addMelody cs found p).program.Formed := by
  unfold addMelody
  dsimp only
  split
  · exact hp
  · refine ⟨hp.tempo, hp.chords, ?_⟩
    intro name commands hfind
    rcases Table.find_bind hfind with rfl | hfind
    · exact Command.read_formed hp.chords .diagnosing _
    · exact hp.melodies name commands hfind

/-- Loading keeps a program formed, step by step. -/
theorem formed_define (cs : List Char) {p : Program} (hp : p.Formed) :
    (define cs p).program.Formed := by
  refine run_preserves ?_ hp
  intro step hstep p hp
  simp only [List.mem_cons, List.not_mem_nil, or_false] at hstep
  rcases hstep with rfl | rfl | rfl | rfl | rfl | rfl | rfl | rfl | rfl
  · exact hp
  · exact ⟨hp.tempo, hp.chords, hp.melodies⟩
  -- the one step that sets the tempo, with the integer it has read
  · unfold setTempo
    repeat' split
    · exact hp
    · exact hp
    · exact ⟨⟨_, rfl⟩, hp.chords, hp.melodies⟩
  · unfold setInstrument
    split
    · exact hp
    · exact ⟨hp.tempo, hp.chords, hp.melodies⟩
  · unfold setEnvelope
    repeat' split
    · exact hp
    · exact hp
    · exact ⟨hp.tempo, hp.chords, hp.melodies⟩
  · unfold setWaveform
    split
    · exact hp
    · exact ⟨hp.tempo, hp.chords, hp.melodies⟩
  · refine run_preserves ?_ hp
    intro step hstep p hp
    obtain ⟨found, -, rfl⟩ := List.mem_map.mp hstep
    exact formed_chord found.item hp
  · refine run_preserves ?_ hp
    intro step hstep p hp
    obtain ⟨found, -, rfl⟩ := List.mem_map.mp hstep
    exact ⟨hp.tempo, hp.chords, hp.melodies⟩
  · refine run_preserves ?_ hp
    intro step hstep p hp
    obtain ⟨found, -, rfl⟩ := List.mem_map.mp hstep
    exact formed_melody cs found hp

theorem formed_start (debug : Bool) : Formed { debug := debug } where
  tempo := ⟨120, rfl⟩
  chords _ _ h := by cases h
  melodies _ _ h := by cases h

/-- Every text is loaded into a formed program, whether it is accepted or not. -/
theorem load_formed (cs : List Char) {p : Program} (hp : p.Formed) :
    (loadText cs p).program.Formed := by
  have haccept (p : Program) (hp : p.Formed) : (acceptText cs p).program.Formed := by
    have hdefine : (process cs { p with mistakes := [] }).program.Formed :=
      formed_define _ ⟨hp.tempo, hp.chords, hp.melodies⟩
    unfold acceptText
    dsimp only
    split
    · exact hdefine
    · split
      all_goals exact hdefine
  unfold loadText
  dsimp only
  split
  · exact ⟨hp.tempo, hp.chords, hp.melodies⟩
  · split
    · exact haccept _ ⟨hp.tempo, hp.chords, hp.melodies⟩
    · exact ⟨hp.tempo, hp.chords, hp.melodies⟩

end Program

end Melody
