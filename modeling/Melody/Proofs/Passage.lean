import Melody.Proofs.Lines
import Melody.Proofs.Nesting

/-!
# Passages and how they are written

A passage is a sequence of statements, some of which are blocks that hold passages. `Written`
relates a passage to its texts: between statements stands at least one blank, and around the body
of a block there may be blanks. `Passage.commands` is what a passage means.
-/

set_option autoImplicit false

namespace Melody.Text

abbrev Word := { cs : List Char // IsWord cs }

end Melody.Text

namespace Melody.Command

open Melody.Text

inductive Length where
  | semibreve
  | minima
  | seminima
  | colcheia
  | semicolcheia
deriving DecidableEq, Repr

def Length.name : Length → List Char
  | .semibreve => "semibreve".toList
  | .minima => "minima".toList
  | .seminima => "seminima".toList
  | .colcheia => "colcheia".toList
  | .semicolcheia => "semicolcheia".toList

inductive Statement where
  | play (note : Word) (length : Length)
  | pause (length : Length)
  | instrument (name : Word)

namespace Statement

def line : Statement → List Char
  | play note length => playLine note.1 length.name
  | pause length => pauseLine length.name
  | instrument name => instrumentLine name.1

def text (s : Statement) (tail : List Char) : List Char :=
  s.line ++ ';' :: tail

def command (ctx : Context) : Statement → Command
  | play note length =>
    match ctx.chords.find? (String.ofList note.1) with
    | none => ofNote note.1 none length.name
    | some notes => .playChord (textSlot note.1) (some notes) (textSlot length.name)
  | pause length => .pause (textSlot length.name)
  | instrument name => .instrument (textSlot name.1)

def spelled (ctx : Context) : Statement → Bool
  | play note _ =>
    match ctx.chords.find? (String.ofList note.1) with
    | none => true
    | some notes => (notes.elements >>= fun vs => vs.mapM Value.noteSpelling).isOk
  | _ => true

end Statement

inductive Passage where
  | stop
  | line (s : Statement) (rest : Passage)
  | branch (left right : Word) (whenTrue whenFalse rest : Passage)
  | forEach (name collection : Word) (body rest : Passage)
  | loop (times : Nat) (body rest : Passage)

def equality (left right : Word) : List Char :=
  left.1 ++ (" == ".toList ++ right.1)

def branchText (left right : Word) (whenTrue whenFalse tail : List Char) : List Char :=
  "se (".toList ++ (equality left right ++ (") \x7b".toList ++ (whenTrue ++
    ("\x7d senao \x7b".toList ++ (whenFalse ++ '}' :: tail)))))

def forEachText (name collection : Word) (body tail : List Char) : List Char :=
  "para cada ".toList ++ (name.1 ++ (" em ".toList ++ (collection.1 ++ (" \x7b".toList ++
    (body ++ '}' :: tail)))))

def loopText (times : Nat) (body tail : List Char) : List Char :=
  "repetir ".toList ++ (Nat.toDigits 10 times ++ (" vezes \x7b".toList ++ (body ++ '}' :: tail)))

structure Gap (after : Bool) (gap : List Char) : Prop where
  blank : ∀ c ∈ gap, isBlank c
  apart : after → gap ≠ []

theorem gap_nil : Gap false [] :=
  ⟨nofun, nofun⟩

inductive Written : Bool → Passage → List Char → Prop where
  | stop {after : Bool} {gap : List Char} : Gap false gap → Written after .stop gap
  | line {after : Bool} {gap cs : List Char} {s : Statement} {rest : Passage} :
      Gap after gap → Written true rest cs → Written after (.line s rest) (gap ++ s.text cs)
  | branch {after : Bool} {gap first second cs : List Char} {left right : Word}
      {whenTrue whenFalse rest : Passage} :
      Gap after gap → Written false whenTrue first → Written false whenFalse second →
      Written true rest cs →
      Written after (.branch left right whenTrue whenFalse rest)
        (gap ++ branchText left right first second cs)
  | forEach {after : Bool} {gap inner cs : List Char} {name collection : Word}
      {body rest : Passage} :
      Gap after gap → Written false body inner → Written true rest cs →
      Written after (.forEach name collection body rest)
        (gap ++ forEachText name collection inner cs)
  | loop {after : Bool} {gap inner cs : List Char} {times : Nat} {body rest : Passage} :
      Gap after gap → Written false body inner → Written true rest cs →
      Written after (.loop times body rest) (gap ++ loopText times inner cs)

namespace Passage

def commands (ctx : Context) : Passage → List Command
  | stop => []
  | line s rest => s.command ctx :: rest.commands ctx
  | branch left right whenTrue whenFalse rest =>
    .branch (textSlot (equality left right)) (.commands (whenTrue.commands ctx))
      (.commands (whenFalse.commands ctx)) :: rest.commands ctx
  | forEach name collection body rest =>
    .forEach (textSlot name.1) (textSlot collection.1) (some (.bool false))
      (.commands (body.commands ctx)) :: rest.commands ctx
  | loop times body rest =>
    .loop (some (.int times)) (.commands (body.commands ctx)) :: rest.commands ctx

def Filled : Passage → Prop
  | stop => True
  | line _ rest => rest.Filled
  | branch _ _ whenTrue whenFalse rest =>
    (whenTrue ≠ stop ∧ whenTrue.Filled) ∧ (whenFalse ≠ stop ∧ whenFalse.Filled) ∧ rest.Filled
  | forEach _ _ body rest => (body ≠ stop ∧ body.Filled) ∧ rest.Filled
  | loop _ body rest => (body ≠ stop ∧ body.Filled) ∧ rest.Filled

def depth : Passage → Nat
  | stop => 0
  | line _ rest => rest.depth
  | branch _ _ whenTrue whenFalse rest =>
    max (max whenTrue.depth whenFalse.depth + 1) rest.depth
  | forEach _ _ body rest => max (body.depth + 1) rest.depth
  | loop _ body rest => max (body.depth + 1) rest.depth

def has (shape : Shape) : Passage → Bool
  | stop => false
  | line _ rest => rest.has shape
  | branch _ _ whenTrue whenFalse rest =>
    shape == .branch || whenTrue.has shape || whenFalse.has shape || rest.has shape
  | forEach _ _ body rest => shape == .forEach || body.has shape || rest.has shape
  | loop _ body rest => shape == .loop || body.has shape || rest.has shape

/-- From the given stage on, each kind of block occurs at most once on a level, in the order in
which blocks are searched for, and a block holds none that is searched for before it. -/
def ordered (stage : Nat) : Passage → Bool
  | stop => true
  | line _ rest => rest.ordered stage
  | branch _ _ whenTrue whenFalse rest =>
    stage ≤ 0 && whenTrue.ordered 0 && whenFalse.ordered 0 && rest.ordered 1
  | forEach _ _ body rest => stage ≤ 1 && body.ordered 1 && rest.ordered 2
  | loop _ body rest => stage ≤ 2 && body.ordered 2 && rest.ordered 3

def readable (ctx : Context) : Passage → Bool
  | stop => true
  | line s rest => s.spelled ctx && rest.readable ctx
  | branch _ _ whenTrue whenFalse rest =>
    whenTrue.readable ctx && whenFalse.readable ctx && rest.readable ctx
  | forEach _ _ body rest => body.readable ctx && rest.readable ctx
  | loop times body rest =>
    (Nat.toDigits 10 times).length ≤ Number.maxIntegerDigits && body.readable ctx &&
      rest.readable ctx

end Passage

theorem length_word (length : Length) : IsWord length.name := by
  cases length
  all_goals exact ⟨by decide, by decide⟩

theorem digits_word (n : Nat) : IsWord (Nat.toDigits 10 n) := by
  refine ⟨Nat.toDigits_ne_nil, fun c hc => ?_⟩
  have hdigit : c.isDigit := Nat.isDigit_of_mem_toDigits (by decide) (by decide) hc
  simp [isWordChar, Char.isAlphanum, hdigit]

theorem length_plain (length : Length) : Line.accidental? length.name = none := by
  cases length
  all_goals rfl

theorem gives_of_command {c : Command} {given : List Command} :
    (Reading.ofCommand c).Gives given ↔ given = [c] :=
  ⟨fun h => h.commands.symm, fun h => ⟨rfl, h.symm⟩⟩

theorem gives_statement (manner : Manner) (ctx : Context) (s : Statement) {given : List Command} :
    (readLine manner ctx s.line).Gives given ↔ s.spelled ctx ∧ given = [s.command ctx] := by
  cases s with
  | play note length =>
    have hrecognise := recognise_play note.2 (length_word length) (length_plain length)
    simp only [Statement.line, read_line_eq, lineReading, hrecognise, readNamed, Statement.command,
      Statement.spelled]
    cases ctx.chords.find? (String.ofList note.1) with
    | none => simpa using gives_of_command
    | some notes =>
      dsimp only
      cases notes.elements >>= fun vs => vs.mapM Value.noteSpelling with
      | error f =>
        exact ⟨fun h => absurd h.regular (Option.some_ne_none f),
          fun h => absurd h.1 Bool.false_ne_true⟩
      | ok spellings => exact ⟨fun h => ⟨rfl, h.commands.symm⟩, fun h => ⟨rfl, h.2.symm⟩⟩
  | pause length =>
    rw [Statement.line, read_pause manner ctx (length_word length), gives_of_command]
    exact ⟨fun h => ⟨rfl, h⟩, And.right⟩
  | instrument name =>
    rw [Statement.line, read_instrument manner ctx name.2, gives_of_command]
    exact ⟨fun h => ⟨rfl, h⟩, And.right⟩

theorem sequence_append (rs ss : List Reading) :
    Reading.sequence (rs ++ ss) = (Reading.sequence rs).andThen (Reading.sequence ss) := by
  induction rs with
  | nil => rfl
  | cons r rs ih =>
    rw [List.cons_append, Reading.sequence, Reading.sequence, ih, Reading.and_then_assoc]

theorem read_lines_cut (manner : Manner) (ctx : Context) {c : Char} (h : isCut c)
    (a b : List Char) :
    readLines manner ctx (a ++ c :: b) =
      (readLines manner ctx a).andThen (readLines manner ctx b) := by
  simp only [read_lines_eq, lines_cut h, List.map_append, sequence_append]

theorem read_lines_gap (manner : Manner) (ctx : Context) {gap : List Char}
    (h : ∀ c ∈ gap, isBlank c) (cs : List Char) :
    readLines manner ctx (gap ++ cs) = readLines manner ctx cs := by
  rw [read_lines_eq, lines_gap h, read_lines_eq]

theorem word_uncut {c : Char} (h : isWordChar c) : isCut c = false := by
  cases hc : isCut c with
  | false => rfl
  | true =>
    rcases (by simpa [isCut] using hc : c = ';' ∨ c = '\n') with rfl | rfl
    · exact absurd h (by decide)
    · exact absurd h (by decide)

theorem stops_word_end {w : List Char} (h : IsWord w) (before : List Char) :
    Stops isBlank (before ++ w).reverse := by
  obtain ⟨c, u, hrev⟩ := List.exists_cons_of_ne_nil (List.reverse_ne_nil_iff.mpr h.nonempty)
  have hc : c ∈ w := List.mem_reverse.mp (by rw [hrev]; simp)
  rw [List.reverse_append, hrev]
  exact stops_cons (word_not_blank (h.chars c hc))

theorem line_uncut (s : Statement) : ∀ c ∈ s.line, isCut c = false := by
  have hword {w : List Char} (hw : IsWord w) : ∀ c ∈ w, isCut c = false :=
    fun c hc => word_uncut (hw.chars c hc)
  intro c hc
  cases s with
  | play note length =>
    rcases List.mem_append.mp hc with hc | hc
    · exact (by decide : ∀ c ∈ "tocar ".toList, isCut c = false) c hc
    · rcases List.mem_append.mp hc with hc | hc
      · exact hword note.2 c hc
      · rcases List.mem_cons.mp hc with rfl | hc
        · decide
        · exact hword (length_word length) c hc
  | pause length =>
    rcases List.mem_append.mp hc with hc | hc
    · exact (by decide : ∀ c ∈ "pausa ".toList, isCut c = false) c hc
    · exact hword (length_word length) c hc
  | instrument name =>
    rcases List.mem_append.mp hc with hc | hc
    · exact (by decide : ∀ c ∈ "instrumento ".toList, isCut c = false) c hc
    · exact hword name.2 c hc

theorem line_start (s : Statement) : Stops isBlank s.line := by
  intro c hc
  cases s with
  | play note length =>
    obtain rfl : 't' = c := Option.some.inj hc
    decide
  | pause length =>
    obtain rfl : 'p' = c := Option.some.inj hc
    decide
  | instrument name =>
    obtain rfl : 'i' = c := Option.some.inj hc
    decide

theorem line_tight (s : Statement) : Tight s.line := by
  refine ⟨line_start s, ?_⟩
  cases s with
  | play note length =>
    have hsplit : playLine note.1 length.name =
        ("tocar ".toList ++ (note.1 ++ [' '])) ++ length.name := by
      unfold playLine
      rw [List.append_assoc, List.append_assoc, List.singleton_append]
    rw [Statement.line, hsplit]
    exact stops_word_end (length_word length) _
  | pause length => exact stops_word_end (length_word length) "pausa ".toList
  | instrument name => exact stops_word_end name.2 "instrumento ".toList

theorem line_ne_nil (s : Statement) : s.line ≠ [] := by
  cases s
  all_goals exact List.cons_ne_nil _ _

theorem read_lines_text (manner : Manner) (ctx : Context) (s : Statement) (tail : List Char) :
    readLines manner ctx (s.text tail) =
      (readLine manner ctx s.line).andThen (readLines manner ctx tail) := by
  have hline : readLines manner ctx s.line = readLine manner ctx s.line := by
    rw [read_lines_eq, lines_uncut (line_uncut s), strip_tight (line_tight s),
      if_neg (by simp [line_ne_nil])]
    exact Reading.and_then_empty _
  rw [Statement.text, read_lines_cut manner ctx rfl, hline]

end Melody.Command
