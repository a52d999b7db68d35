import Melody.Proofs.Calls
import Melody.Proofs.Passage

/-!
# Lines that pass unnoticed

The plain reader makes a command of a line, ends with a fault, or warns that it does not know the
line, whichever of the forms is the first to fit. There is one exception: a line that counts as a
call of a function that does not exist is passed over, and nothing is said. So the lines that are
lost without a word are exactly those with the shape of a call whose name is no function and does
not start like a switch of the parallel mode. What stands around a line does not matter for this.
-/

set_option autoImplicit false

namespace Melody.Command

open Melody.Text

def Reading.Warns (r : Reading) (line : List Char) : Prop :=
  let text := String.ofList line
  s!"Aviso: Linha não reconhecida como comando: '{text}'" ∈ r.printed

instance (r : Reading) (line : List Char) : Decidable (r.Warns line) :=
  inferInstanceAs (Decidable (_ ∈ r.printed))

def Reading.Notices (r : Reading) (line : List Char) : Prop :=
  r.commands ≠ [] ∨ r.fault ≠ none ∨ r.Warns line

def UnknownCall (ctx : Context) (line : List Char) : Prop :=
  ∃ name gap inside, CallShape name gap inside ∧ line = callText name gap inside ∧
    startsMark name = false ∧ String.ofList name ∉ ctx.functions

section Notices

variable {ctx : Context}

theorem notices_command (c : Command) (line : List Char) : (Reading.ofCommand c).Notices line :=
  .inl (List.cons_ne_nil c [])

theorem notices_fault (f : Fault) (line : List Char) : (Reading.ofFault f).Notices line :=
  .inr (.inl (Option.some_ne_none f))

theorem notices_named (name duration line : List Char) :
    (readNamed ctx name duration).Notices line := by
  unfold readNamed
  cases ctx.chords.find? (String.ofList name) with
  | none => exact notices_command _ line
  | some notes =>
    dsimp only
    cases notes.elements >>= fun vs => vs.mapM Value.noteSpelling with
    | error f => exact notices_fault f line
    | ok spellings => exact .inl (List.cons_ne_nil _ _)

theorem notices_envelope (attack decay sustain release line : List Char) :
    (readEnvelope attack decay sustain release).Notices line := by
  unfold readEnvelope
  dsimp only
  split
  · exact notices_command _ line
  · exact notices_fault _ line

/-- A line of no form is warned of. -/
theorem notices_unrecognised {line : List Char} (hline : strip line ≠ []) :
    (unrecognisedReading .plain line).Notices line := by
  rw [unrecognisedReading, if_neg (by simpa using hline)]
  exact .inr (.inr List.mem_cons_self)

/-- Of every other line something comes, form by form. -/
theorem line_notices {line : List Char} (hline : strip line ≠ [])
    (hknown : ¬ UnknownCall ctx line) : (readLine .plain ctx line).Notices line := by
  rw [read_line_eq]
  unfold lineReading
  cases hform : Line.recognise line with
  | none => exact notices_unrecognised hline
  | some form =>
    cases form with
    | named name duration => exact notices_named name duration line
    | envelope attack decay sustain release =>
      exact notices_envelope attack decay sustain release line
    | call name arguments =>
      obtain ⟨hmark, gap, inside, hshape, htext⟩ := recognise_call_iff.mp ⟨arguments, hform⟩
      have hfunction : ctx.functions.contains (String.ofList name) = true := by
        rw [List.contains_iff_mem]
        by_contra hnone
        exact hknown ⟨name, gap, inside, hshape, htext, hmark, hnone⟩
      simp only [hfunction, if_true]
      exact .inl (List.cons_ne_nil _ _)
    | startParallel | endParallel | literalChord | note | pause | waveform | instrument =>
      exact notices_command _ line

theorem unknown_call_empty {line : List Char} (h : UnknownCall ctx line) :
    readLine .plain ctx line = .empty := by
  obtain ⟨name, gap, inside, hshape, htext, hmark, hnone⟩ := h
  obtain ⟨arguments, hform⟩ := recognise_call_iff.mpr ⟨hmark, gap, inside, hshape, htext⟩
  have hfunction : ctx.functions.contains (String.ofList name) = false := by
    simpa using hnone
  simp only [read_line_eq, lineReading, hform, hfunction, Bool.false_eq_true, if_false]

theorem empty_not_notices (line : List Char) : ¬ Reading.empty.Notices line := by
  rintro (h | h | h)
  · exact h rfl
  · exact h rfl
  · exact List.not_mem_nil h

end Notices

/-- The lines of a text have no blanks at their ends and are not empty. -/
theorem statement_line_solid {cs line : List Char} (h : line ∈ statementLines cs) :
    strip line ≠ [] := by
  obtain ⟨hpiece, hne⟩ := List.mem_filter.mp h
  obtain ⟨piece, -, rfl⟩ := List.mem_map.mp hpiece
  rw [strip_tight (strip_leaves_tight piece)]
  simpa using hne

/-- In every text and under all chords and functions, what the plain reader makes of a line stands
behind what it makes of the lines before, unless one of them ends in a fault. Nothing comes of the
line, neither a command nor a fault nor a warning that quotes it, exactly if it is a call of a
function that does not exist. -/
theorem line_unnoticed_iff (ctx : Context) {cs line : List Char} {before after : List (List Char)}
    (hcs : statementLines cs = before ++ line :: after) :
    readLines .plain ctx cs =
        (Reading.sequence (before.map (readLine .plain ctx))).andThen
          ((readLine .plain ctx line).andThen
            (Reading.sequence (after.map (readLine .plain ctx)))) ∧
      (¬ (readLine .plain ctx line).Notices line ↔ UnknownCall ctx line) ∧
      (UnknownCall ctx line → readLine .plain ctx line = .empty) := by
  have hmem : line ∈ statementLines cs := by simp [hcs]
  have hline := statement_line_solid hmem
  refine ⟨?_, ⟨?_, ?_⟩, unknown_call_empty⟩
  · rw [read_lines_eq, hcs, List.map_append, sequence_append]
    rfl
  · intro h
    by_contra hknown
    exact h (line_notices hline hknown)
  · intro hunknown
    rw [unknown_call_empty hunknown]
    exact empty_not_notices line

def bareContext : Context := { functions := Function.Builtin.all.map Function.Builtin.name }

def echoText : List Char := "tocar do minima; eco(x)".toList

def echoLine : List Char := "eco(x)".toList

/-- The echo is lost without a word, although the diagnosing reader warns of it. -/
theorem echo_unnoticed :
    UnknownCall bareContext echoLine ∧ ¬ (readLine .plain bareContext echoLine).Notices echoLine ∧
      (readLines .plain bareContext echoText).printed = [] ∧
      (readLine .diagnosing bareContext echoLine).Warns echoLine := by
  have hcs : statementLines echoText = ["tocar do minima".toList] ++ echoLine :: [] := by decide
  obtain ⟨-, hiff, -⟩ := line_unnoticed_iff bareContext hcs
  have hecho : UnknownCall bareContext echoLine :=
    ⟨"eco".toList, [], "x)".toList, ⟨⟨by decide, by decide⟩, by decide, by decide⟩, rfl, by decide,
      by decide⟩
  exact ⟨hecho, hiff.mpr hecho, by decide +kernel, by decide +kernel⟩

end Melody.Command
