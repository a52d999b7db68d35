import Melody.Proofs.Shadowing
import Melody.Proofs.Typing

/-!
# Commands whose names are unbound

Resolving looks up the names that commands mention. It changes more than the variables it finds: an
empty name is replaced by a fallback, a chord gets the notes that its name has now, and a value that
stands for a block becomes commands. Commands that were read give no occasion for that. Their names
have content, and a chord that is named has the notes of the table it was read with. So they stay as
they are if none of the names is bound, and nothing is printed.
-/

set_option autoImplicit false

namespace Melody

def Performer.Unbound (p : Performer) (name : String) : Prop :=
  p.scope.find? (.text name) = none ∧ p.globals.find? name = none

theorem Act.bind_of_answer {σ α β : Type} {m : Act σ α} {s : σ} {a : α} (h : m s = answer a s)
    (f : α → Act σ β) : (m >>= f) s = f a s := by
  rw [bind_congr_start h, answer_bind]

namespace Command

open Melody.Text

def IsFilled : Slot → Prop :=
  HoldsText fun s => s ≠ ""

theorem is_filled {cs : List Char} (h : cs ≠ []) : IsFilled (textSlot cs) :=
  ⟨_, rfl, by simpa using h⟩

mutual
/-- A command in which only variables can be replaced: wherever a name is looked up, at any level of
its blocks, there is a text with content, and the chords it names have the notes of the table. -/
def Inert (chords : Table Value) : Command → Prop
  | .play note _ duration => IsFilled note ∧ IsFilled duration
  | .playChord name notes duration =>
    (name = none ∨ ∃ s, name = some (.text s) ∧ chords.find? s = notes) ∧ IsFilled duration
  | .branch _ whenTrue whenFalse =>
    InertBlock chords whenTrue ∧ (whenFalse = .value .none ∨ InertBlock chords whenFalse)
  | .loop times body => (∃ n, times = some (.int n)) ∧ InertBlock chords body
  | .forEach _ collection _ body => IsText collection ∧ InertBlock chords body
  | .call _ arguments => ∃ names : List String, arguments = some (.list (names.map .text))
  | .marked _ c => Inert chords c
  | .other _ => False
  | _ => True

def InertBlock (chords : Table Value) : Block → Prop
  | .commands cs => AllInert chords cs
  | _ => False

def AllInert (chords : Table Value) : List Command → Prop
  | [] => True
  | c :: cs => Inert chords c ∧ AllInert chords cs
end

theorem all_inert_iff {chords : Table Value} {cs : List Command} :
    AllInert chords cs ↔ ∀ c ∈ cs, Inert chords c := by
  induction cs with
  | nil => simp [AllInert]
  | cons c cs ih => simp [AllInert, ih]

def Line.Filled : Line → Prop
  | .literalChord _ duration => duration ≠ []
  | .named name duration => name ≠ [] ∧ duration ≠ []
  | .note name _ duration => name ≠ [] ∧ duration ≠ []
  | _ => True

theorem word_filled {cs w rest : List Char} (h : word? cs = some (w, rest)) : w ≠ [] := by
  rintro rfl
  unfold word? run? at h
  split at h
  · cases h
  · rename_i hne
    exact hne (Prod.mk.inj (Option.some.inj h)).1

theorem duration_filled {cs d : List Char} (h : Line.duration? cs = some d) : d ≠ [] := by
  obtain ⟨rest, -, h⟩ := Option.bind_eq_some_iff.mp h
  obtain ⟨⟨w, rest'⟩, hword, h⟩ := Option.bind_eq_some_iff.mp h
  obtain rfl := Option.some.inj h
  exact word_filled hword

theorem flat_name_filled {name base : List Char} (h : Line.flatName? name = some base) :
    base ≠ [] := by
  unfold Line.flatName? at h
  split_ifs at h with hflat
  obtain rfl := Option.some.inj h
  simp only [Bool.and_eq_true, decide_eq_true_eq] at hflat
  rw [← List.length_pos_iff, List.length_dropLast]
  omega

def Fills (found : Option Line) : Prop :=
  ∀ line, found = some line → line.Filled

section Forms

variable {α : Type} {found : Option α}

theorem fills_none : Fills none := by
  intro line h
  cases h

theorem fills_pure {line : Line} (h : line.Filled) : Fills (pure line) := by
  rintro _ ⟨⟩
  exact h

theorem fills_bind {f : α → Option Line} (h : ∀ a, found = some a → Fills (f a)) :
    Fills (found >>= f) := by
  intro line hline
  obtain ⟨a, ha, hline⟩ := Option.bind_eq_some_iff.mp hline
  exact h a ha line hline

theorem fills_map {f : α → Line} (h : ∀ a, (f a).Filled) : Fills (found.map f) := by
  intro line hline
  obtain ⟨a, -, rfl⟩ := Option.map_eq_some_iff.mp hline
  exact h a

/-- A note with a name that has content, and the duration behind it. -/
theorem fills_note {name : List Char} (h : name ≠ []) (sign : Option Char) (rest : List Char) :
    Fills (Line.duration? rest >>= fun d => pure (.note name sign d)) := by
  apply fills_bind
  intro d hd
  exact fills_pure ⟨h, duration_filled hd⟩

/-- The forms that begin with `tocar` and a word. -/
theorem fills_word {cs : List Char} {f : List Char × List Char → Option Line}
    (h : ∀ name rest, name ≠ [] → Fills (f (name, rest))) :
    Fills (Line.keyword? "tocar" cs >>= fun rest => word? rest >>= f) := by
  apply fills_bind
  intro more _
  apply fills_bind
  rintro ⟨name, rest⟩ hword
  exact h name rest (word_filled hword)

theorem literal_chord_fills (cs : List Char) : Fills (Line.literalChord? cs) := by
  apply fills_bind
  intro rest _
  apply fills_bind
  intro body _
  apply fills_bind
  rintro ⟨notes, rest⟩ -
  dsimp only
  split_ifs
  · exact fills_none
  · apply fills_bind
    intro d hd
    exact fills_pure (duration_filled hd)

theorem named_fills (cs : List Char) : Fills (Line.named? cs) := by
  apply fills_word
  intro name rest hname
  apply fills_bind
  intro rest _
  split
  · exact fills_none
  · apply fills_bind
    rintro ⟨d, rest⟩ hd
    exact fills_pure ⟨hname, word_filled hd⟩

theorem spaced_accidental_fills (cs : List Char) : Fills (Line.spacedAccidental? cs) := by
  apply fills_word
  intro name rest hname
  apply fills_bind
  intro rest _
  apply fills_bind
  rintro ⟨sign, rest⟩ -
  exact fills_note hname _ _

theorem joined_accidental_fills (cs : List Char) : Fills (Line.joinedAccidental? cs) := by
  apply fills_word
  intro name rest hname
  dsimp only
  split
  · exact fills_note hname _ _
  · apply fills_bind
    intro base hbase
    exact fills_note (flat_name_filled hbase) _ _

theorem with_octave_fills (cs : List Char) : Fills (Line.withOctave? cs) := by
  apply fills_word
  intro name rest hname
  dsimp only
  split_ifs
  · exact fills_note hname _ _
  · exact fills_none

theorem spaced_octave_fills (cs : List Char) : Fills (Line.spacedAccidentalOctave? cs) := by
  apply fills_word
  intro name rest hname
  apply fills_bind
  intro rest _
  apply fills_bind
  rintro ⟨sign, rest⟩ -
  apply fills_bind
  rintro ⟨octave, rest⟩ -
  exact fills_note (List.append_ne_nil_of_left_ne_nil hname octave) _ _

theorem joined_octave_fills (cs : List Char) : Fills (Line.joinedAccidentalOctave? cs) := by
  apply fills_word
  intro name rest hname
  dsimp only
  split
  · apply fills_bind
    rintro ⟨octave, rest⟩ -
    exact fills_note (List.append_ne_nil_of_left_ne_nil hname octave) _ _
  · apply fills_bind
    intro base hbase
    split_ifs
    · exact fills_none
    · exact fills_note (List.append_ne_nil_of_left_ne_nil (flat_name_filled hbase) _) _ _

theorem inline_envelope_fills (cs : List Char) : Fills (Line.inlineEnvelope? cs) := by
  apply fills_bind
  intro rest _
  iterate 4
    apply fills_bind
    rintro ⟨setting, rest⟩ -
  exact fills_pure trivial

theorem block_envelope_fills (cs : List Char) : Fills (Line.blockEnvelope? cs) := by
  apply fills_bind
  intro rest _
  apply fills_bind
  intro rest _
  iterate 4
    apply fills_bind
    rintro ⟨setting, rest⟩ -
  apply fills_bind
  intro rest _
  exact fills_pure trivial

theorem call_fills (cs : List Char) : Fills (Line.call? cs) := by
  apply fills_bind
  rintro ⟨name, rest⟩ -
  apply fills_bind
  intro rest _
  apply fills_bind
  rintro ⟨arguments, rest⟩ -
  exact fills_pure trivial

end Forms

/-- Whatever form a line has, its names and durations have content. -/
theorem recognise_fills (cs : List Char) : Fills (Line.recognise cs) := by
  have hforms : ∀ form ∈ Line.forms, Fills (form cs) := by
    simp only [Line.forms, List.forall_mem_cons, List.not_mem_nil, false_implies, implies_true,
      and_true]
    refine ⟨?_, ?_, literal_chord_fills cs, named_fills cs, spaced_accidental_fills cs,
      joined_accidental_fills cs, with_octave_fills cs, spaced_octave_fills cs,
      joined_octave_fills cs, ?_, inline_envelope_fills cs, block_envelope_fills cs, ?_, ?_,
      call_fills cs⟩
    all_goals exact fills_map fun _ => trivial
  intro line h
  obtain ⟨form, hform, h⟩ := List.exists_of_findSome?_eq_some h
  exact hforms form hform line h

section Reading

variable {ctx : Context}

theorem inert_note {name : List Char} (hname : name ≠ []) (accidental : Option Char)
    {duration : List Char} (hduration : duration ≠ []) :
    Inert ctx.chords (ofNote name accidental duration) :=
  ⟨is_filled hname, is_filled hduration⟩

theorem inert_call (name arguments : List Char) :
    Inert ctx.chords (.call (textSlot name) (some (.list (callArguments arguments)))) := by
  by_cases hempty : arguments.isEmpty
  · exact ⟨[], by simp [callArguments, hempty]⟩
  · refine ⟨(splitOn ',' arguments).map fun a => String.ofList (strip a), ?_⟩
    simp [callArguments, hempty]

theorem read_line_inert (manner : Manner) (line : List Char) :
    (readLine manner ctx line).All (Inert ctx.chords) := by
  apply all_line
  intro form c hform hgives
  have hfilled := recognise_fills line form hform
  cases hgives with
  | startParallel => exact trivial
  | endParallel => exact trivial
  | literalChord notes duration => exact ⟨.inl rfl, is_filled hfilled⟩
  | chord duration hnotes => exact ⟨.inr ⟨_, rfl, hnotes⟩, is_filled hfilled.2⟩
  | named name duration => exact inert_note hfilled.1 none hfilled.2
  | note name accidental duration => exact inert_note hfilled.1 accidental hfilled.2
  | pause duration => exact trivial
  | envelope attack decay sustain release a d s r => exact trivial
  | waveform name => exact trivial
  | instrument name => exact trivial
  | call name arguments => exact inert_call name arguments

theorem read_lines_inert (manner : Manner) (cs : List Char) :
    (readLines manner ctx cs).All (Inert ctx.chords) := by
  rw [read_lines_eq]
  apply Reading.all_sequence
  intro r hr
  obtain ⟨line, -, rfl⟩ := List.mem_map.mp hr
  exact read_line_inert manner line

theorem inert_block {chords : Table Value} {cs : List Command}
    (h : ∀ c ∈ cs, Inert chords c) : InertBlock chords (.commands cs) :=
  all_inert_iff.mpr h

theorem inert_builds (chords : Table Value) : Builds (Inert chords) (Inert chords) where
  within := id
  start := trivial
  stop := trivial
  branch _ _ htrue := ⟨inert_block htrue, .inl rfl⟩
  choice _ _ _ htrue hfalse := ⟨inert_block htrue, .inr (inert_block hfalse)⟩
  forEach _ collection _ _ hbody := ⟨is_text collection, inert_block hbody⟩
  loop _ _ hbody := ⟨⟨_, rfl⟩, inert_block hbody⟩

/-- Every text is read into inert commands. -/
theorem read_inert (manner : Manner) (cs : List Char) :
    (read manner ctx cs).All (Inert ctx.chords) :=
  (inert_builds ctx.chords).read (read_lines_inert manner) cs

end Reading

end Command

namespace Performance

open Act Command

section Resolving

variable {p : Performer}

theorem lookup_unbound {s : String} (h : p.Unbound s) : lookup (.text s) p = answer none p := by
  unfold lookup
  rw [read_bind]
  change answer ((p.scope.find? (.text s)).or (p.globals.find? s)) p = answer none p
  rw [h.1, h.2, Option.or_none]

theorem fallback_kept (what fallback : String) (name : Value) {s : String} (hs : s ≠ "") :
    orFallback what fallback name (.text s) = answer (.text s) := by
  unfold orFallback
  split
  case h_1 h => exact absurd (Value.text.inj h) hs
  case h_8 s' h => rw [Value.text.inj h]
  all_goals contradiction

theorem fill_duration_unbound {duration : Slot} (hfilled : IsFilled duration)
    (h : ∀ name ∈ Slot.names duration, p.Unbound name) :
    fillDuration duration p = answer duration p := by
  obtain ⟨s, rfl, hs⟩ := hfilled
  have hlookup := lookup_unbound (h s List.mem_cons_self)
  unfold fillDuration
  rw [need, answer_bind, bind_of_answer hlookup]
  dsimp only
  rw [fallback_kept _ _ _ hs, answer_bind]
  rfl

theorem fill_play_unbound {note duration : Slot} (accidental : Slot) (hnote : IsFilled note)
    (hduration : IsFilled duration)
    (h : ∀ name ∈ Slot.names note ++ Slot.names duration, p.Unbound name) :
    fillPlay note accidental duration p = answer (.play note accidental duration) p := by
  obtain ⟨s, rfl, hs⟩ := hnote
  rw [List.forall_mem_append] at h
  have hkept : fillNote (.text s) accidental p = answer (.text s, accidental) p := by
    unfold fillNote
    rw [bind_of_answer (lookup_unbound (h.1 s List.mem_cons_self))]
    rfl
  unfold fillPlay
  rw [need, answer_bind, bind_of_answer hkept]
  dsimp only
  rw [fallback_kept _ _ _ hs, answer_bind, bind_of_answer (fill_duration_unbound hduration h.2)]
  rfl

/-- A chord that is named gets the notes that it has. -/
theorem fill_chord_unbound {name notes : Slot}
    (hname : name = none ∨ ∃ s, name = some (.text s) ∧ p.program.chords.find? s = notes)
    (h : ∀ s ∈ Slot.names name, p.Unbound s) : fillChord name notes p = answer notes p := by
  rcases hname with rfl | ⟨s, rfl, rfl⟩
  · rfl
  · unfold fillChord
    dsimp only
    rw [bind_of_answer (lookup_unbound (h s List.mem_cons_self))]
    change answer ((p.program.chords.find? s).or (p.program.chords.find? s)) p = _
    rw [Option.or_self]

theorem fill_arguments_unbound {names : List String} (h : ∀ name ∈ names, p.Unbound name) :
    fillArguments (names.map .text) p = answer (names.map .text) p := by
  induction names with
  | nil => rfl
  | cons name names ih =>
    rw [List.forall_mem_cons] at h
    rw [List.map_cons, fillArguments, bind_of_answer (lookup_unbound h.1)]
    dsimp only
    rw [bind_of_answer (ih h.2)]
    rfl

theorem fill_call_unbound (function : Slot) (names : List String)
    (h : ∀ name ∈ Slot.argumentNames (some (.list (names.map .text))), p.Unbound name) :
    fillCall function (some (.list (names.map .text))) p =
      answer (.call function (some (.list (names.map .text)))) p := by
  have hnames : Slot.argumentNames (some (.list (names.map .text))) = names := by
    change (names.map Value.text).flatMap Value.names = names
    rw [List.flatMap_map]
    exact List.flatMap_singleton' names
  rw [hnames] at h
  unfold fillCall
  rw [need, answer_bind]
  dsimp only
  rw [bind_of_answer (fill_arguments_unbound h)]
  rfl

mutual
/-- An inert command whose names are unbound is resolved to itself. -/
theorem substitute_unbound : ∀ c : Command, Inert p.program.chords c →
    (∀ name ∈ c.mentions, p.Unbound name) → substitute c p = answer c p
  | .play note accidental duration, hc, h => by
    rw [substitute]
    exact fill_play_unbound accidental hc.1 hc.2 h
  | .playChord name notes duration, hc, h => by
    rw [Command.mentions, List.forall_mem_append] at h
    rw [substitute, fillPlayChord, bind_of_answer (fill_chord_unbound hc.1 h.1),
      bind_of_answer (fill_duration_unbound hc.2 h.2)]
    rfl
  | .branch condition whenTrue whenFalse, hc, h => by
    rw [Command.mentions, List.forall_mem_append] at h
    rw [substitute, bind_of_answer (substitute_block_unbound _ whenTrue hc.1 h.1),
      bind_of_answer (substitute_optional_unbound _ whenFalse hc.2 h.2)]
    rfl
  | .loop times body, hc, h => by
    obtain ⟨⟨n, rfl⟩, hbody⟩ := hc
    have htimes : fillTimes (some (.int n)) p = answer (some (.int n)) p := rfl
    rw [Command.mentions, List.forall_mem_append] at h
    rw [substitute, bind_of_answer htimes,
      bind_of_answer (substitute_block_unbound _ body hbody h.2)]
    rfl
  | .forEach name collection reversed body, hc, h => by
    obtain ⟨⟨s, rfl, -⟩, hbody⟩ := hc
    rw [substitute, bind_of_answer (substitute_block_unbound _ body hbody h)]
    rfl
  | .call function arguments, hc, h => by
    obtain ⟨names, rfl⟩ := hc
    rw [substitute]
    exact fill_call_unbound function names h
  | .marked further c, hc, h => by
    rw [substitute, bind_of_answer (substitute_unbound c hc h)]
    rfl
  | .other v, hc, _ => by cases hc
  | .pause duration, _, _ => rfl
  | .envelope attack decay sustain release, _, _ => rfl
  | .waveform name, _, _ => rfl
  | .instrument name, _, _ => rfl
  | .startParallel, _, _ => rfl
  | .endParallel, _, _ => rfl

theorem substitute_block_unbound (field : String) : ∀ b : Block,
    InertBlock p.program.chords b → (∀ name ∈ b.mentions, p.Unbound name) →
    substituteBlock field b p = answer b p
  | .commands cs, hb, h => by
    rw [substituteBlock, bind_of_answer (substitute_all_unbound cs hb h)]
    rfl
  | .missing, hb, _ => by cases hb
  | .value v, hb, _ => by cases hb

theorem substitute_optional_unbound (field : String) : ∀ b : Block,
    (b = .value .none ∨ InertBlock p.program.chords b) → (∀ name ∈ b.mentions, p.Unbound name) →
    substituteOptional field b p = answer b p
  | .commands cs, hb, h => by
    have hcs := hb.resolve_left (by simp)
    rw [substituteOptional, bind_of_answer (substitute_all_unbound cs hcs h)]
    rfl
  | .missing, hb, _ => by
    rcases hb with h | h
    · cases h
    · cases h
  | .value v, hb, _ => by
    rcases hb with h | h
    · cases h
      rfl
    · cases h

theorem substitute_all_unbound : ∀ cs : List Command, AllInert p.program.chords cs →
    (∀ name ∈ Command.mentionsAll cs, p.Unbound name) → substituteAll cs p = answer cs p
  | [], _, _ => rfl
  | c :: cs, hcs, h => by
    rw [Command.mentionsAll, List.forall_mem_append] at h
    rw [substituteAll, bind_of_answer (substitute_unbound c hcs.1 h.1),
      bind_of_answer (substitute_all_unbound cs hcs.2 h.2)]
    rfl
end

end Resolving

/-- Commands that were read stay as they are when they are resolved, also when that is done again,
if the chords are those they were read with and no variable has a name that they mention. Nothing is
printed. -/
theorem unbound_commands_stay (manner : Manner) (ctx : Context) (cs : List Char) (p : Performer)
    (hchords : p.program.chords = ctx.chords)
    (hnames : ∀ name ∈ Command.mentionsAll (Command.read manner ctx cs).commands,
      p.Unbound name) :
    substituteAll (Command.read manner ctx cs).commands p =
        ⟨p, [], .ok (Command.read manner ctx cs).commands⟩ ∧
      (substituteAll (Command.read manner ctx cs).commands >>= substituteAll) p =
        ⟨p, [], .ok (Command.read manner ctx cs).commands⟩ := by
  have hinert : AllInert p.program.chords (Command.read manner ctx cs).commands := by
    rw [hchords]
    exact all_inert_iff.mpr (read_inert manner cs)
  have honce := substitute_all_unbound _ hinert hnames
  exact ⟨honce, (bind_of_answer honce _).trans honce⟩

def refrain : List Char :=
  ("se (x == y) \x7b tocar DoMaior minima; \x7d " ++
    "senao \x7b repetir 2 vezes \x7b tocar sol# colcheia; eco(do, 2); \x7d \x7d").toList

def refrainContext : Context where
  chords := [("DoMaior", .list [noteValue "do".toList none, noteValue "mi".toList none])]
  functions := ["eco"]

def refrainSinger : Performer where
  program := { chords := refrainContext.chords }
  globals := [("x", .int 3)]
  scope := [(.text "n", noteValue "la".toList (some 'b'))]

theorem refrain_stays :
    Command.mentionsAll (Command.read .diagnosing refrainContext refrain).commands =
        ["DoMaior", "minima", "sol", "colcheia", "do", "2"] ∧
      substituteAll (Command.read .diagnosing refrainContext refrain).commands refrainSinger =
        ⟨refrainSinger, [], .ok (Command.read .diagnosing refrainContext refrain).commands⟩ := by
  have hnames : Command.mentionsAll (Command.read .diagnosing refrainContext refrain).commands =
      ["DoMaior", "minima", "sol", "colcheia", "do", "2"] := by decide +kernel
  refine ⟨hnames, ?_⟩
  refine (unbound_commands_stay .diagnosing refrainContext refrain refrainSinger rfl ?_).1
  rw [hnames]
  simp only [List.forall_mem_cons, Performer.Unbound]
  decide +kernel

end Performance

end Melody
