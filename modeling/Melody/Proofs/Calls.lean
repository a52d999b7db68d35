import Melody.Proofs.Arguments
import Melody.Proofs.Blocks

/-!
# Lines with the shape of a call

A call is the last form that is tried on a line: a word, perhaps blanks, and a pair of parentheses.
The forms in front of it that begin with a keyword need a blank behind the keyword, and behind the
blanks another word, a bracket or a setting. On a line with the shape of a call that is where the
parenthesis stands, so none of them fits. Only the two words that switch the parallel mode are
recognised without looking behind them, and so they are taken for the beginning of longer names.
-/

set_option autoImplicit false

namespace Melody.Text

theorem word_parts {cs w rest : List Char} (h : word? cs = some (w, rest)) :
    IsWord w ∧ cs = w ++ rest := by
  unfold word? run? at h
  split at h
  · contradiction
  · rename_i hne
    obtain ⟨rfl, rfl⟩ := Prod.mk.inj (Option.some.inj h)
    exact ⟨⟨hne, fun c hc => List.mem_takeWhile_imp hc⟩, List.takeWhile_append_dropWhile.symm⟩

theorem up_to_some_iff (stop : Char) (cs : List Char) : (upTo? stop cs).isSome ↔ stop ∈ cs := by
  induction cs with
  | nil => simp [upTo?]
  | cons c cs ih =>
    rw [upTo?]
    split
    · rename_i hc
      simp [hc]
    · rename_i hc
      rw [Option.isSome_map, ih, List.mem_cons]
      simp [Ne.symm hc]

end Melody.Text

namespace Melody.Command

open Melody.Text

def startsMark (f : List Char) : Bool :=
  (dropText? "inicio_paralelo".toList f).isSome || (dropText? "fim_paralelo".toList f).isSome

structure CallShape (name gap inside : List Char) : Prop where
  name : IsWord name
  gap : ∀ c ∈ gap, isBlank c
  closed : ')' ∈ inside

def callText (name gap inside : List Char) : List Char :=
  name ++ (gap ++ '(' :: inside)

theorem skip_blanks_call {gap : List Char} (h : ∀ c ∈ gap, isBlank c) (inside : List Char) :
    skipBlanks (gap ++ '(' :: inside) = '(' :: inside := by
  rw [skipBlanks, List.dropWhile_append_of_pos h]
  exact (take_while_stops (stops_cons (by decide))).2

theorem call_of_shape {name gap inside : List Char} (h : CallShape name gap inside) :
    ∃ arguments, Line.call? (callText name gap inside) = some (.call name arguments) := by
  have hstops : Stops isWordChar (gap ++ '(' :: inside) := by
    cases gap with
    | nil => exact stops_cons (by decide)
    | cons c gap => exact stops_cons (blank_not_word (h.gap c List.mem_cons_self))
  have hopen : dropText? ['('] ('(' :: inside) = some inside := rfl
  obtain ⟨⟨arguments, rest⟩, hclosed⟩ :=
    Option.isSome_iff_exists.mp ((up_to_some_iff ')' inside).mpr h.closed)
  refine ⟨strip arguments, ?_⟩
  simp only [Line.call?, callText, word_append h.name hstops, skip_blanks_call h.gap, hopen,
    hclosed, Option.bind_eq_bind, Option.bind_some, Option.pure_def]

theorem shape_of_call {line name arguments : List Char}
    (h : Line.call? line = some (.call name arguments)) :
    ∃ gap inside, CallShape name gap inside ∧ line = callText name gap inside := by
  obtain ⟨⟨word, rest⟩, hword, h⟩ := Option.bind_eq_some_iff.mp h
  obtain ⟨inside, hopen, h⟩ := Option.bind_eq_some_iff.mp h
  obtain ⟨⟨before, after⟩, hclosed, h⟩ := Option.bind_eq_some_iff.mp h
  obtain ⟨rfl, -⟩ := Line.call.inj (Option.some.inj h)
  obtain ⟨hname, rfl⟩ := word_parts hword
  refine ⟨rest.takeWhile isBlank, inside, ⟨hname, fun c hc => List.mem_takeWhile_imp hc, ?_⟩, ?_⟩
  · exact (up_to_some_iff ')' inside).mp (by rw [hclosed]; rfl)
  · have hskip : '(' :: inside = skipBlanks rest := (drop_text_eq hopen).symm
    rw [callText, hskip, skipBlanks, List.takeWhile_append_dropWhile]

section Front

variable {name gap inside : List Char} (h : CallShape name gap inside)

include h

/-- A word at the start of the line reaches no further than the name. -/
theorem drop_word_call {word : List Char} (hword : ∀ c ∈ word, isWordChar c) :
    dropText? word (callText name gap inside) =
      (dropText? word name).map (· ++ (gap ++ '(' :: inside)) := by
  have hforeign {c : Char} (hc : isWordChar c = false) : c ∉ word := by
    intro hmem
    rw [hword c hmem] at hc
    contradiction
  cases gap with
  | nil => exact drop_text_before (hforeign (by decide)) name inside
  | cons c gap =>
    exact drop_text_before (hforeign (blank_not_word (h.gap c List.mem_cons_self))) name
      (gap ++ '(' :: inside)

/-- Behind a word at the start of the line stand the rest of the name, or blanks and the
parenthesis. -/
theorem behind_word {word after : List Char} (hword : ∀ c ∈ word, isWordChar c)
    (hafter : dropText? word (callText name gap inside) = some after) :
    (∃ c more, after = c :: more ∧ isWordChar c) ∨ after = gap ++ '(' :: inside := by
  rw [drop_word_call h hword] at hafter
  obtain ⟨more, hmore, rfl⟩ := Option.map_eq_some_iff.mp hafter
  cases more with
  | nil => exact .inr rfl
  | cons c more =>
    have hc := h.name.chars c ((drop_text_suffix hmore).subset List.mem_cons_self)
    exact .inl ⟨c, more ++ (gap ++ '(' :: inside), rfl, hc⟩

/-- Blanks behind a word at the start of the line lead to the parenthesis. -/
theorem blanks_call {word after rest : List Char} (hword : ∀ c ∈ word, isWordChar c)
    (hafter : dropText? word (callText name gap inside) = some after)
    (hrest : blanks? after = some rest) : rest = '(' :: inside := by
  rcases behind_word h hword hafter with ⟨c, more, rfl, hc⟩ | rfl
  · simp [blanks?, word_not_blank hc] at hrest
  · cases gap with
    | nil => cases hrest
    | cons c gap =>
      have hblank := h.gap c List.mem_cons_self
      rw [List.cons_append, blanks?, if_pos hblank,
        skip_blanks_call fun d hd => h.gap d (List.mem_cons_of_mem c hd)] at hrest
      exact (Option.some.inj hrest).symm

/-- A form that goes on behind a keyword and blanks fails if it cannot go on with a parenthesis. -/
theorem keyword_form_missed {α : Type} {word : String} (hword : ∀ c ∈ word.toList, isWordChar c)
    {f : List Char → Option α} (hf : f ('(' :: inside) = none) :
    (Line.keyword? word (callText name gap inside) >>= f) = none := by
  rw [Option.bind_eq_bind, Option.bind_eq_none_iff]
  intro rest hrest
  obtain ⟨after, hafter, hblanks⟩ := Option.bind_eq_some_iff.mp hrest
  rw [blanks_call h hword hafter hblanks, hf]

theorem inline_envelope_missed : Line.inlineEnvelope? (callText name gap inside) = none := by
  rw [Line.inlineEnvelope?, Option.bind_eq_bind, Option.bind_eq_none_iff]
  intro after hafter
  have hword : ∀ c ∈ "configurar_envelope".toList, isWordChar c := by decide
  cases hblanks : blanks? after with
  | none => simp only [hblanks, Option.bind_eq_bind, Option.bind_none]
  | some rest =>
    obtain rfl := blanks_call h hword hafter hblanks
    have hattack : dropText? "attack=".toList ('(' :: inside) = none := rfl
    simp only [hblanks, hattack, Option.bind_eq_bind, Option.bind_some, Option.bind_none]

theorem block_envelope_missed : Line.blockEnvelope? (callText name gap inside) = none := by
  rw [Line.blockEnvelope?, Option.bind_eq_bind, Option.bind_eq_none_iff]
  intro after hafter
  have hword : ∀ c ∈ "configurar_envelope".toList, isWordChar c := by decide
  have hbrace : dropText? ['{'] (skipBlanks after) = none := by
    rcases behind_word h hword hafter with ⟨c, more, rfl, hc⟩ | rfl
    · rw [skipBlanks, List.dropWhile_cons_of_neg (by simp [word_not_blank hc])]
      have hne : '{' ≠ c := by
        rintro rfl
        contradiction
      rw [dropText?, if_neg hne]
    · rw [skip_blanks_call h.gap]
      rfl
  rw [hbrace]
  rfl

/-- All forms in front of the calls fail, unless the name starts with a switch. -/
theorem front_missed (hmark : startsMark name = false) :
    ∀ form ∈ Line.forms.dropLast, form (callText name gap inside) = none := by
  have hswitch {word : String} (hchars : ∀ c ∈ word.toList, isWordChar c)
      (hnone : (dropText? word.toList name).isSome = false) (line : Line) :
      ((dropText? word.toList (callText name gap inside)).map fun _ => line) = none := by
    rw [drop_word_call h hchars, show dropText? word.toList name = none by simpa using hnone]
    rfl
  have hplay {f : List Char → Option Line} (hf : f ('(' :: inside) = none) :
      (Line.keyword? "tocar" (callText name gap inside) >>= f) = none :=
    keyword_form_missed h (by decide) hf
  have hkey {word : String} (hchars : ∀ c ∈ word.toList, isWordChar c) (f : List Char → Line) :
      (Line.keywordWord? word (callText name gap inside)).map f = none :=
    Option.map_eq_none_iff.mpr (keyword_form_missed h hchars rfl)
  rw [startsMark, Bool.or_eq_false_iff] at hmark
  simp only [Line.forms, List.dropLast_cons_cons, List.dropLast_singleton, List.forall_mem_cons,
    List.not_mem_nil, false_implies, implies_true, and_true]
  exact ⟨hswitch (by decide) hmark.1 _, hswitch (by decide) hmark.2 _, hplay rfl, hplay rfl,
    hplay rfl, hplay rfl, hplay rfl, hplay rfl, hplay rfl, hkey (by decide) _,
    inline_envelope_missed h, block_envelope_missed h, hkey (by decide) _, hkey (by decide) _⟩

end Front

/-- No form in front of the calls gives a call. -/
theorem front_no_call (cs name arguments : List Char) :
    ∀ form ∈ Line.forms.dropLast, form cs ≠ some (.call name arguments) := by
  simp only [Line.forms, List.dropLast_cons_cons, List.dropLast_singleton, List.forall_mem_cons,
    List.not_mem_nil, false_implies, implies_true, and_true]
  refine ⟨by simp, by simp, ?literalChord, ?named, ?spacedAccidental, ?joinedAccidental,
    ?withOctave, ?spacedAccidentalOctave, ?joinedAccidentalOctave, by simp, ?inlineEnvelope,
    ?blockEnvelope, by simp, by simp⟩
  case literalChord => simp [Line.literalChord?, Option.bind_eq_some_iff]
  case named =>
    simp only [Line.named?, Option.bind_eq_bind, Option.bind_eq_some_iff, ne_eq, not_exists,
      not_and]
    rintro _ _ _ _ _ _
    split <;> simp [Option.bind_eq_some_iff]
  case spacedAccidental => simp [Line.spacedAccidental?, Option.bind_eq_some_iff]
  case joinedAccidental =>
    simp only [Line.joinedAccidental?, Option.bind_eq_bind, Option.bind_eq_some_iff, ne_eq,
      not_exists, not_and]
    rintro _ _ _ _
    split <;> simp [Option.bind_eq_some_iff]
  case withOctave => simp [Line.withOctave?, Option.bind_eq_some_iff]
  case spacedAccidentalOctave => simp [Line.spacedAccidentalOctave?, Option.bind_eq_some_iff]
  case joinedAccidentalOctave =>
    simp only [Line.joinedAccidentalOctave?, Option.bind_eq_bind, Option.bind_eq_some_iff, ne_eq,
      not_exists, not_and]
    rintro _ _ _ _
    split <;> simp [Option.bind_eq_some_iff]
  case inlineEnvelope => simp [Line.inlineEnvelope?, Option.bind_eq_some_iff]
  case blockEnvelope => simp [Line.blockEnvelope?, Option.bind_eq_some_iff]

theorem recognise_front (cs : List Char) :
    Line.recognise cs =
      (Line.forms.dropLast.findSome? fun form => form cs).or (Line.call? cs) := by
  have hforms : Line.forms = Line.forms.dropLast ++ [Line.call?] := rfl
  have hall : (Line.forms.findSome? fun form => form cs) =
      (Line.forms.dropLast ++ [Line.call?]).findSome? fun form => form cs := by rw [← hforms]
  rw [Line.recognise, hall, List.findSome?_append, List.findSome?_singleton]

theorem recognise_shape {name gap inside : List Char} (h : CallShape name gap inside)
    (hmark : startsMark name = false) :
    Line.recognise (callText name gap inside) = Line.call? (callText name gap inside) := by
  rw [recognise_front, List.findSome?_eq_none_iff.mpr (front_missed h hmark), Option.none_or]

/-- A line counts as a call exactly if it has the shape of one and its name starts like no
switch. -/
theorem recognise_call_iff {line name : List Char} :
    (∃ arguments, Line.recognise line = some (.call name arguments)) ↔
      startsMark name = false ∧
        ∃ gap inside, CallShape name gap inside ∧ line = callText name gap inside := by
  constructor
  · rintro ⟨arguments, hline⟩
    rw [recognise_front] at hline
    cases hfront : Line.forms.dropLast.findSome? fun form => form line with
    | some found =>
      obtain ⟨form, hform, hfound⟩ := List.exists_of_findSome?_eq_some hfront
      rw [hfront, Option.some_or] at hline
      exact absurd (hfound.trans hline) (front_no_call line name arguments form hform)
    | none =>
      rw [hfront, Option.none_or] at hline
      obtain ⟨gap, inside, hshape, rfl⟩ := shape_of_call hline
      refine ⟨?_, gap, inside, hshape, rfl⟩
      have hswitches := List.findSome?_eq_none_iff.mp hfront
      have hstart := hswitches _ List.mem_cons_self
      have hend := hswitches _ (List.mem_cons_of_mem _ List.mem_cons_self)
      rw [Option.map_eq_none_iff, drop_word_call hshape (by decide), Option.map_eq_none_iff]
        at hstart hend
      rw [startsMark, hstart, hend]
      rfl
  · rintro ⟨hmark, gap, inside, hshape, rfl⟩
    rw [recognise_shape hshape hmark]
    exact call_of_shape hshape

end Melody.Command
