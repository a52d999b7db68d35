import Melody.Proofs.Passage

/-!
# Texts joined by semicolons

A text without opening braces holds no block, whatever keywords it has, so it is read line by
line. What is made of a line depends on this line alone, and it is one command at most. So two
such texts with a semicolon between them are read as the first and then the second, and a fault in
the first keeps the second from being read.
-/

set_option autoImplicit false

namespace Melody.Command

open Melody.Text

theorem line_commands_le_one (manner : Manner) (ctx : Context) (line : List Char) :
    (readLine manner ctx line).commands.length ≤ 1 := by
  rcases read_line_cases ctx manner line with hnone | ⟨form, c, -, -, hone⟩
  · rw [hnone]
    exact Nat.zero_le 1
  · rw [hone]
    exact Nat.le_refl 1

def heard (read : List Char → Reading) : List (List Char) → List (List Char)
  | [] => []
  | line :: rest =>
    match (read line).fault with
    | some _ => [line]
    | none => line :: heard read rest

theorem sequence_commands (read : List Char → Reading) (ls : List (List Char)) :
    (Reading.sequence (ls.map read)).commands =
      (heard read ls).flatMap fun line => (read line).commands := by
  induction ls with
  | nil => rfl
  | cons line rest ih =>
    rw [List.map_cons, Reading.sequence]
    cases hline : (read line).fault with
    | some f => simp [Reading.andThen, heard, hline]
    | none => simp [Reading.andThen, heard, hline, ih]

/-- None of the searches finds a block in either text or in the joined one, so the lines are all
there is. -/
theorem read_joined (manner : Manner) (ctx : Context) {a b : List Char} (ha : '{' ∉ a)
    (hb : '{' ∉ b) :
    read manner ctx (a ++ ';' :: b) = (read manner ctx a).andThen (read manner ctx b) := by
  have hjoined : '{' ∉ a ++ ';' :: b := by simp [ha, hb]
  rw [read_clear manner ctx hjoined, read_lines_cut manner ctx rfl, read_clear manner ctx ha,
    read_clear manner ctx hb]

/-- In both manners and under all chords and functions, two texts without opening braces that are
joined by a semicolon give the commands, the printed lines and the mistakes of the first and then
those of the second. If the first ends in a fault, what comes of both is what comes of the first.
The commands of such a text come from its lines that are not blank, in their order and as far as
these are read, and from each line comes one at most. -/
theorem semicolon_composes (manner : Manner) (ctx : Context) {a b : List Char} (ha : '{' ∉ a)
    (hb : '{' ∉ b) :
    ((read manner ctx a).fault = none →
        read manner ctx (a ++ ';' :: b) =
          { commands := (read manner ctx a).commands ++ (read manner ctx b).commands
            printed := (read manner ctx a).printed ++ (read manner ctx b).printed
            mistakes := (read manner ctx a).mistakes ++ (read manner ctx b).mistakes
            fault := (read manner ctx b).fault }) ∧
      (∀ f, (read manner ctx a).fault = some f →
        read manner ctx (a ++ ';' :: b) = read manner ctx a) ∧
      (read manner ctx a).commands =
        ((heard (readLine manner ctx) (statementLines a)).flatMap
          fun line => (readLine manner ctx line).commands) ∧
      ∀ line, (readLine manner ctx line).commands.length ≤ 1 := by
  rw [read_joined manner ctx ha hb]
  refine ⟨?_, ?_, ?_, line_commands_le_one manner ctx⟩
  · intro hregular
    simp only [Reading.andThen, hregular]
  · intro f hfault
    simp only [Reading.andThen, hfault]
  · rw [read_clear manner ctx ha, read_lines_eq]
    exact sequence_commands (readLine manner ctx) (statementLines a)

def wordyText : List Char :=
  "se (x);\n reptir 2 vezes; pausa minima".toList

def brokenText : List Char :=
  "pausa minima; configurar_envelope attack=. decay=1 sustain=1 release=1".toList

/-- The wordy text is read in front of the broken one, and not behind it. -/
theorem broken_text_stops :
    ('{' ∉ wordyText ∧ '{' ∉ brokenText) ∧
      ((read .diagnosing {} (wordyText ++ ';' :: brokenText)).commands.length = 2 ∧
        (read .diagnosing {} (wordyText ++ ';' :: brokenText)).mistakes =
          [.misspelled "reptir" "reptir 2 vezes"]) ∧
      ((read .diagnosing {} (brokenText ++ ';' :: wordyText)).commands.length = 1 ∧
        (read .diagnosing {} (brokenText ++ ';' :: wordyText)).mistakes = []) := by
  have hw : '{' ∉ wordyText := by decide +kernel
  have hb : '{' ∉ brokenText := by decide +kernel
  have hwordy : (readLines .diagnosing {} wordyText).fault.isNone ∧
      (readLines .diagnosing {} wordyText).commands.length = 1 ∧
      (readLines .diagnosing {} wordyText).mistakes = [.misspelled "reptir" "reptir 2 vezes"] := by
    decide +kernel
  have hbroken : (readLines .diagnosing {} brokenText).fault.isSome ∧
      (readLines .diagnosing {} brokenText).commands.length = 1 ∧
      (readLines .diagnosing {} brokenText).mistakes = [] := by
    decide +kernel
  rw [← read_clear .diagnosing {} hw, Option.isNone_iff_eq_none] at hwordy
  rw [← read_clear .diagnosing {} hb, Option.isSome_iff_exists] at hbroken
  obtain ⟨⟨f, hf⟩, hcommands, hmistakes⟩ := hbroken
  obtain ⟨hgoes, -⟩ := semicolon_composes .diagnosing {} hw hb
  obtain ⟨-, hstops, -⟩ := semicolon_composes .diagnosing {} hb hw
  rw [hgoes hwordy.1, hstops f hf]
  refine ⟨⟨hw, hb⟩, ⟨?_, ?_⟩, hcommands, hmistakes⟩
  · rw [List.length_append, hwordy.2.1, hcommands]
  · rw [hwordy.2.2, hmistakes, List.append_nil]

end Melody.Command
