import Melody.Performance.Run
import Melody.Program.Load
import Melody.Proofs.PlayLines
import Melody.Proofs.Playable
import Melody.Proofs.Seeking

/-!
# Spellings of notes

A note is spelled with a name, perhaps an accidental and perhaps an octave. Spellings are read in
four places: on the line that plays the note, in a chord in angle brackets, in the definition of a
chord, and by an iteration over the text of a chord. Each has its own way of taking the accidental
and the octave out of the spelling. A line takes the letter of a flat for a part of the name. In
brackets, the name that is this letter is taken for a flat. A definition and an iteration leave
the octave in its place and take off the last character, which is the accidental only if no octave
follows it.
-/

set_option autoImplicit false

namespace Melody.Text

def coversRuns : List Nat → List (Nat × Nat) → Bool
  | [], _ => true
  | first :: more, ranges =>
    match ranges.dropWhile fun r => r.2 < first + 9 with
    | [] => false
    | r :: rest => r.1 ≤ first && coversRuns more (r :: rest)

theorem in_ranges_of_covers {zeros : List Nat} {ranges : List (Nat × Nat)}
    (h : coversRuns zeros ranges) {first k : Nat} (hfirst : first ∈ zeros) (hk : k < 10) :
    inRanges ranges (first + k) := by
  induction zeros generalizing ranges with
  | nil => cases hfirst
  | cons start more ih =>
    rw [coversRuns] at h
    split at h
    · cases h
    · rename_i r rest hdrop
      have hsub : r :: rest ⊆ ranges := hdrop ▸ List.dropWhile_subset _
      rw [Bool.and_eq_true, decide_eq_true_eq] at h
      rcases List.mem_cons.mp hfirst with rfl | hmore
      · have hlong : first + 9 ≤ r.2 := by
          have := List.head?_dropWhile_not (fun r => decide (r.2 < first + 9)) ranges
          simpa [hdrop] using this
        have hin : decide (r.1 ≤ first + k) && decide (first + k ≤ r.2) := by
          rw [Bool.and_eq_true, decide_eq_true_eq, decide_eq_true_eq]
          omega
        exact List.any_eq_true.mpr ⟨r, hsub List.mem_cons_self, hin⟩
      · obtain ⟨u, hu, hin⟩ := List.any_eq_true.mp (ih h.2 hmore)
        exact List.any_eq_true.mpr ⟨u, hsub hu, hin⟩

/-- The digits of all systems are word characters. -/
theorem digits_in_words : coversRuns Table.decimalZeros Table.wordRanges := by
  decide +kernel

theorem decimal_word {c : Char} (h : isDecimal c) : isWordChar c := by
  unfold isDecimal digitValue? at h
  split_ifs at h with hdigit hascii
  · simp [isWordChar, Char.isAlphanum, hdigit]
  · cases h
  · rw [Option.isSome_map] at h
    obtain ⟨first, hfind⟩ := Option.isSome_iff_exists.mp h
    have hrange := List.find?_some hfind
    simp only [Bool.and_eq_true, decide_eq_true_eq] at hrange
    obtain ⟨k, hk⟩ := Nat.exists_eq_add_of_le hrange.1
    have hword := in_ranges_of_covers digits_in_words (List.mem_of_find?_eq_some hfind)
      (show k < 10 by omega)
    rw [isWordChar, hk, hword, decide_eq_true (by omega), Bool.and_true, Bool.or_true]

theorem small_word {c : Char} (h : Token.isSmallLetter c) : isWordChar c :=
  ascii_cases (P := fun c => Token.isSmallLetter c → isWordChar c) (by decide +kernel) c
    (by have := small_letter_range h; omega) h

/-- A find that takes up the whole text is the only one. -/
theorem find_all_whole {α : Type} {recognise : List Char → Option (α × List Char)} {c : Char}
    {cs : List Char} {item : α} (h : recognise (c :: cs) = some (item, [])) :
    findAll recognise (c :: cs) = [⟨0, (c :: cs).length, item⟩] := by
  simp [findAll, findFrom, h]

end Melody.Text

theorem Melody.Table.find_bind_self {α : Type} (t : Table α) (name : String) (a : α) :
    (t.bind name a).find? name = some a := by
  unfold find?
  induction t with
  | nil => rw [bind, List.lookup_cons, beq_self_eq_true]
  | cons entry rest ih =>
    by_cases hkey : entry.1 = name
    · rw [bind, if_pos hkey, hkey, List.lookup_cons, beq_self_eq_true]
    · have hne : (name == entry.1) = false := by simpa using Ne.symm hkey
      rw [bind, if_neg hkey, List.lookup_cons, hne]
      exact ih

namespace Melody.Command

open Melody.Text

structure Spelling where
  base : List Char
  sign : Option Char
  octave : List Char
  named : Token.isNoteName base
  signed : ∀ c ∈ sign, Line.isAccidental c
  digits : ∀ c ∈ octave, isDecimal c

namespace Spelling

variable (s : Spelling)

def text : List Char :=
  s.base ++ (s.sign.toList ++ s.octave)

def name : List Char :=
  s.base ++ s.octave

def plain : Spelling :=
  { s with octave := [], digits := by simp }

theorem base_chars : ∀ c ∈ s.base, Token.isSmallLetter c :=
  Token.name_letters s.named

theorem base_word : IsWord s.base := by
  refine ⟨?_, fun c hc => small_word (s.base_chars c hc)⟩
  intro hnil
  have hnamed := s.named
  rw [hnil] at hnamed
  exact absurd hnamed (by decide)

theorem base_signs : '#' ∉ s.base ∧ ('b' ∈ s.base ↔ s.base = ['b']) := by
  have hall : ∀ name ∈ Token.noteNames,
      '#' ∉ name.toList ∧ ('b' ∈ name.toList ↔ name.toList = ['b']) := by decide
  have hnamed := s.named
  have hbase := hall (String.ofList s.base) (by simpa [Token.isNoteName] using hnamed)
  rwa [String.toList_ofList] at hbase

theorem not_octave {c : Char} (h : isDecimal c = false) : c ∉ s.octave := by
  intro hc
  rw [s.digits c hc] at h
  contradiction

/-- No digit stands in front of the octave. -/
theorem front_no_digit : ∀ c ∈ s.base ++ s.sign.toList, isDecimal c = false := by
  intro c hc
  rcases List.mem_append.mp hc with hc | hc
  · cases hdecimal : isDecimal c with
    | false => rfl
    | true =>
      have hsmall := Token.small_not_decimal hdecimal
      rw [s.base_chars c hc] at hsmall
      contradiction
  · have hsign := s.signed c (Option.mem_toList.mp hc)
    rcases (by simpa [Line.isAccidental] using hsign : c = '#' ∨ c = 'b') with rfl | rfl
    · decide
    · decide

theorem sharp_in_text : '#' ∈ s.text ↔ s.sign = some '#' := by
  have hoctave : '#' ∉ s.octave := s.not_octave (by decide)
  simp [text, s.base_signs.1, hoctave]

theorem flat_in_text : 'b' ∈ s.text ↔ s.base = ['b'] ∨ s.sign = some 'b' := by
  have hoctave : 'b' ∉ s.octave := s.not_octave (by decide)
  simp [text, s.base_signs.2, hoctave]

theorem sign_cases : s.sign = none ∨ s.sign = some '#' ∨ s.sign = some 'b' := by
  have hsigned := s.signed
  cases hsign : s.sign with
  | none => exact .inl rfl
  | some c =>
    have hc := hsigned c hsign
    simpa [Line.isAccidental] using hc

theorem text_solid : ∀ c ∈ s.text, isBlank c = false := by
  intro c hc
  rw [text, List.mem_append, List.mem_append, Option.mem_toList] at hc
  rcases hc with hc | hc | hc
  · exact word_not_blank (s.base_word.chars c hc)
  · rcases (by simpa [Line.isAccidental] using s.signed c hc : c = '#' ∨ c = 'b') with rfl | rfl
    · decide
    · decide
  · exact word_not_blank (decimal_word (s.digits c hc))

theorem text_ne_nil : s.text ≠ [] :=
  List.append_ne_nil_of_left_ne_nil s.base_word.nonempty _

theorem split_signed (h : s.sign ≠ none) :
    splitAccidental s.text = (s.text.dropLast, s.sign) := by
  unfold splitAccidental
  rcases s.sign_cases with hsign | hsign | hsign
  · contradiction
  · rw [if_pos (List.contains_iff_mem.mpr (s.sharp_in_text.mpr hsign)), hsign]
  · have hsharp : ¬ '#' ∈ s.text := by simp [s.sharp_in_text, hsign]
    have hflat : 'b' ∈ s.text := s.flat_in_text.mpr (.inr hsign)
    simp [hsharp, hflat, hsign]

theorem split_natural (h : s.sign = none) : splitAccidental s.text =
    if s.base = ['b'] then (s.text.dropLast, some 'b') else (s.text, none) := by
  have hsharp : ¬ '#' ∈ s.text := by simp [s.sharp_in_text, h]
  have hflat : 'b' ∈ s.text ↔ s.base = ['b'] := by simp [s.flat_in_text, h]
  simp [splitAccidental, hsharp, hflat]

/-- Taking the last character off takes the accidental off exactly if it stands there. -/
theorem drop_last_iff (h : s.sign ≠ none) : s.text.dropLast = s.name ↔ s.octave = [] := by
  obtain ⟨c, hsign⟩ := Option.ne_none_iff_exists'.mp h
  have hc : isDecimal c = false := s.front_no_digit c (by simp [hsign])
  have htext : s.text = s.base ++ c :: s.octave := by rw [text, hsign]; rfl
  rw [htext, name, List.dropLast_append_of_ne_nil (List.cons_ne_nil c s.octave),
    List.append_cancel_left_eq]
  have hdigits := s.digits
  cases hoctave : s.octave with
  | nil => simp
  | cons d more =>
    rw [List.dropLast_cons_of_ne_nil (List.cons_ne_nil d more), List.cons.injEq]
    have hne : c ≠ d := by
      rintro rfl
      rw [hoctave] at hdigits
      rw [hdigits c List.mem_cons_self] at hc
      contradiction
    simp [hne]

end Spelling

/-- Two records of notes are the same only if the names are, and if both have an accidental or none
has. -/
theorem note_value_eq {n m : List Char} {a b : Option Char} (h : noteValue n a = noteValue m b) :
    n = m ∧ (a = none ↔ b = none) := by
  unfold noteValue at h
  simp only [Value.record.injEq, List.cons.injEq, Prod.mk.injEq, Value.text.injEq, true_and,
    and_true, String.ofList_inj] at h
  refine ⟨h.1, ?_⟩
  cases a with
  | none =>
    cases b with
    | none => exact Iff.rfl
    | some d => cases h.2
  | some c =>
    cases b with
    | none => cases h.2
    | some d => simp

namespace Spelling

variable (s : Spelling)

/-- Where the octave stays in its place, a spelling is read as it is meant exactly if it has an
accidental at its end, or none and another name than the letter of a flat. -/
theorem plain_note_iff : plainNote s.text = noteValue s.name s.sign ↔
    (s.sign = none → s.base ≠ ['b']) ∧ (s.sign ≠ none → s.octave = []) := by
  have hsplit : plainNote s.text =
      noteValue (splitAccidental s.text).1 (splitAccidental s.text).2 := rfl
  rw [hsplit]
  by_cases hsign : s.sign = none
  · rw [s.split_natural hsign, hsign]
    by_cases hbase : s.base = ['b']
    · rw [if_pos hbase]
      simp only [hbase]
      constructor
      · intro h
        simpa using (note_value_eq h).2
      · intro h
        simp at h
    · have htext : s.text = s.name := by rw [text, name, hsign]; rfl
      simp [hbase, htext]
  · rw [s.split_signed hsign]
    constructor
    · intro h
      exact ⟨fun hnone => absurd hnone hsign,
        fun _ => (s.drop_last_iff hsign).mp (note_value_eq h).1⟩
    · intro h
      rw [(s.drop_last_iff hsign).mpr (h.2 hsign)]

theorem text_eq : s.text = (s.base ++ s.sign.toList) ++ s.octave := by
  rw [text, List.append_assoc]

theorem filter_text : s.text.filter (fun c => !isDecimal c) = s.plain.text := by
  have hfront : (s.base ++ s.sign.toList).filter (fun c => !isDecimal c) =
      s.base ++ s.sign.toList := by
    apply List.filter_eq_self.mpr
    intro c hc
    rw [s.front_no_digit c hc, Bool.not_false]
  have hoctave : s.octave.filter (fun c => !isDecimal c) = [] := by
    apply List.filter_eq_nil_iff.mpr
    intro c hc
    simp [s.digits c hc]
  rw [text_eq, List.filter_append, hfront, hoctave, text_eq]
  rfl

theorem first_digits_text : firstDigits s.text = s.octave := by
  have hfront : ∀ c ∈ s.base ++ s.sign.toList, (!isDecimal c) = true := by
    intro c hc
    rw [s.front_no_digit c hc, Bool.not_false]
  have hstops : Stops (fun c => !isDecimal c) s.octave := by
    intro c hc
    change (!isDecimal c) = false
    rw [s.digits c (List.mem_of_mem_head? hc), Bool.not_true]
  rw [firstDigits, text_eq, List.dropWhile_append_of_pos hfront, (take_while_stops hstops).2]
  exact List.takeWhile_eq_self_iff.mpr s.digits

/-- Where the octave is put behind the name, only the name that is the letter of a flat is
misread, if no accidental follows it. -/
theorem literal_note_iff : literalNote s.text = noteValue s.name s.sign ↔
    (s.sign = none → s.base ≠ ['b']) := by
  have hsplit : literalNote s.text = noteValue
      ((splitAccidental (s.text.filter fun c => !isDecimal c)).1 ++ firstDigits s.text)
      (splitAccidental (s.text.filter fun c => !isDecimal c)).2 := rfl
  rw [hsplit, filter_text, first_digits_text]
  have hplain : s.plain.sign = s.sign := rfl
  by_cases hsign : s.sign = none
  · rw [s.plain.split_natural hsign, hsign]
    have hbase' : s.plain.base = s.base := rfl
    by_cases hbase : s.base = ['b']
    · rw [if_pos (hbase'.trans hbase)]
      simp only [hbase]
      constructor
      · intro h
        simpa using (note_value_eq h).2
      · intro h
        simp at h
    · have htext : s.plain.text ++ s.octave = s.name := by
        rw [text_eq, hplain, hsign]
        simp [plain, name]
      rw [if_neg (fun h => hbase (hbase'.symm.trans h))]
      simp [hbase, htext]
  · have hdrop : s.plain.text.dropLast = s.base := by
      rw [(s.plain.drop_last_iff hsign).mpr rfl]
      exact List.append_nil s.base
    rw [s.plain.split_signed hsign, hplain, hdrop]
    simp [hsign, name]

end Spelling

namespace Spelling

variable (s : Spelling)

def lasting : List Char := "seminima".toList

theorem lasting_word : IsWord lasting :=
  ⟨by decide, by decide⟩

theorem word_of_text (h : s.sign ≠ some '#') : IsWord s.text := by
  refine ⟨s.text_ne_nil, ?_⟩
  intro c hc
  rw [text_eq, List.mem_append, List.mem_append, Option.mem_toList] at hc
  rcases hc with (hc | hc) | hc
  · exact s.base_word.chars c hc
  · rcases (by simpa [Line.isAccidental] using s.signed c hc : c = '#' ∨ c = 'b') with rfl | rfl
    · contradiction
    · decide
  · exact decimal_word (s.digits c hc)

/-- Without a sharp the spelling is taken for a name as a whole. -/
theorem read_unsharpened (manner : Manner) (ctx : Context) (h : s.sign ≠ some '#')
    (hchord : ctx.chords.find? (String.ofList s.text) = none) :
    readLine manner ctx (playLine s.text lasting) = .ofCommand (ofNote s.text none lasting) :=
  read_play manner ctx (s.word_of_text h) lasting_word (by decide) hchord

theorem base_no_digit : endsInDigit s.base = false := by
  unfold endsInDigit
  cases hlast : s.base.getLast? with
  | none => rfl
  | some c =>
    exact s.front_no_digit c (List.mem_append_left _ (List.mem_of_getLast? hlast))

def behindName : List Char :=
  '#' :: (s.octave ++ ' ' :: lasting)

theorem sharp_stops : Stops isWordChar s.behindName :=
  stops_cons (by decide)

theorem joined_sharp : Line.joinedAccidental? (playText s.base s.behindName) =
    if s.octave = [] then some (.note s.base (some '#') lasting) else none := by
  have hform : Line.joinedAccidental? (playText s.base s.behindName) = _ :=
    play_form s.base_word s.sharp_stops _
  have hsharp : dropText? ['#'] s.behindName = some (s.octave ++ ' ' :: lasting) := rfl
  rw [hform]
  simp only [hsharp]
  have hdigits := s.digits
  cases hoctave : s.octave with
  | nil => rw [List.nil_append, duration_word lasting_word]; rfl
  | cons d more =>
    have hd : isBlank d = false := by
      rw [hoctave] at hdigits
      exact word_not_blank (decimal_word (hdigits d List.mem_cons_self))
    simp [Line.duration?, blanks?, hd]

theorem octave_sharp : Line.withOctave? (playText s.base s.behindName) = none := by
  have hform : Line.withOctave? (playText s.base s.behindName) = _ :=
    play_form s.base_word s.sharp_stops _
  have hdigit : (s.base.getLast?.map isDecimal).getD false = false := s.base_no_digit
  rw [hform]
  simp only [hdigit, Bool.false_and, Bool.false_eq_true, if_false]

theorem joined_octave_sharp (h : s.octave ≠ []) :
    Line.joinedAccidentalOctave? (playText s.base s.behindName) =
      some (.note s.name (some '#') lasting) := by
  have hform : Line.joinedAccidentalOctave? (playText s.base s.behindName) = _ :=
    play_form s.base_word s.sharp_stops _
  have hsharp : dropText? ['#'] s.behindName = some (s.octave ++ ' ' :: lasting) := rfl
  have hblank : isDecimal ' ' = false := by decide
  have hdigits : digits? (s.octave ++ ' ' :: lasting) = some (s.octave, ' ' :: lasting) :=
    run_append h s.digits (stops_cons hblank)
  rw [hform]
  simp only [hsharp, hdigits, Option.bind_eq_bind, Option.bind_some, duration_word lasting_word]
  rfl

theorem recognise_sharp (h : s.sign = some '#') :
    Line.recognise (playLine s.text lasting) = some (.note s.name (some '#') lasting) := by
  have hparts : s.text ++ ' ' :: lasting = s.base ++ s.behindName := by
    simp [text, behindName, h]
  have hline : playLine s.text lasting = playText s.base s.behindName :=
    congrArg ("tocar ".toList ++ ·) hparts
  -- no blank stands behind the name, so the forms with one do not apply
  have hnamed : Line.named? (playText s.base s.behindName) = none :=
    play_form s.base_word s.sharp_stops _
  have hspaced : Line.spacedAccidental? (playText s.base s.behindName) = none :=
    play_form s.base_word s.sharp_stops _
  have hspaced' : Line.spacedAccidentalOctave? (playText s.base s.behindName) = none :=
    play_form s.base_word s.sharp_stops _
  rw [hline, recognise_play_text s.base_word]
  simp only [noteForms, List.findSome?_cons, hnamed, hspaced, hspaced', s.joined_sharp,
    s.octave_sharp]
  by_cases hoctave : s.octave = []
  · simp [hoctave, name]
  · simp [hoctave, s.joined_octave_sharp hoctave]

/-- A line reads a spelling as it is meant exactly if it has no flat. -/
theorem read_line_iff (manner : Manner) (ctx : Context)
    (hchord : ctx.chords.find? (String.ofList s.text) = none) :
    readLine manner ctx (playLine s.text lasting) = .ofCommand (ofNote s.name s.sign lasting) ↔
      s.sign ≠ some 'b' := by
  rcases s.sign_cases with hsign | hsign | hsign
  · have hname : s.text = s.name := by simp [text, name, hsign]
    rw [s.read_unsharpened manner ctx (by simp [hsign]) hchord, hname, hsign]
    simp
  · rw [read_line_eq]
    unfold lineReading
    rw [s.recognise_sharp hsign, hsign]
    simp
  · rw [s.read_unsharpened manner ctx (by simp [hsign]) hchord, hsign]
    simp [Reading.ofCommand, ofNote]

def bracketed : List Char :=
  '<' :: (s.text ++ ['>'])

theorem bracket_outside : '>' ∉ s.text := by
  intro h
  rw [text_eq, List.mem_append, List.mem_append, Option.mem_toList] at h
  rcases h with (h | h) | h
  · exact absurd (s.base_word.chars '>' h) (by decide)
  · exact absurd (s.signed '>' h) (by decide)
  · exact absurd (s.digits '>' h) (by decide)

theorem read_chord (manner : Manner) (ctx : Context) :
    readLine manner ctx (playLine s.bracketed lasting) =
      .ofCommand (.playChord none (some (.list [literalNote s.text])) (textSlot lasting)) := by
  have hkey : Line.keyword? "tocar" (playLine s.bracketed lasting) =
      some ('<' :: (s.text ++ '>' :: ' ' :: lasting)) := by
    change some ('<' :: ((s.text ++ ['>']) ++ ' ' :: lasting)) = _
    rw [List.append_assoc]
    rfl
  have hbracket : dropText? ['<'] ('<' :: (s.text ++ '>' :: ' ' :: lasting)) =
      some (s.text ++ '>' :: ' ' :: lasting) := rfl
  have hchord : Line.literalChord? (playLine s.bracketed lasting) =
      some (.literalChord s.text lasting) := by
    simp [Line.literalChord?, hkey, hbracket, up_to_append s.bracket_outside, s.text_ne_nil,
      duration_word lasting_word]
  have hfront : Line.recognise (playLine s.bracketed lasting) =
      (Line.forms.drop 2).findSome? fun form => form (playLine s.bracketed lasting) := rfl
  rw [read_line_eq]
  unfold lineReading
  rw [hfront]
  simp only [Line.forms, List.drop_succ_cons, List.drop_zero, List.findSome?_cons, hchord,
    words_solid s.text_ne_nil s.text_solid, List.map_cons, List.map_nil]

def definition (chord : List Char) : List Char :=
  "acorde ".toList ++ (chord ++ (" = ".toList ++ s.bracketed))

theorem find_definition {chord : List Char} (hchord : IsWord chord) :
    Program.chord? (s.definition chord) = some (⟨chord, s.text⟩, []) := by
  have hblank : isWordChar ' ' = false := by decide
  have hkey : dropText? "acorde".toList (s.definition chord) =
      some (' ' :: (chord ++ (" = ".toList ++ s.bracketed))) := rfl
  have hblanks : blanks? (' ' :: (chord ++ (" = ".toList ++ s.bracketed))) =
      some (chord ++ (" = ".toList ++ s.bracketed)) := congrArg some (skip_word hchord _)
  have hword : word? (chord ++ (" = ".toList ++ s.bracketed)) =
      some (chord, " = ".toList ++ s.bracketed) := word_append hchord (stops_cons hblank)
  have hequals : dropText? ['='] (skipBlanks (" = ".toList ++ s.bracketed)) =
      some (' ' :: s.bracketed) := rfl
  have hbracket : dropText? ['<'] (skipBlanks (' ' :: s.bracketed)) = some (s.text ++ ['>']) := rfl
  have hempty : s.text.isEmpty = false := by simp [s.text_ne_nil]
  simp only [Program.chord?, hkey, hblanks, hword, hequals, hbracket, Option.bind_eq_bind,
    Option.bind_some, up_to_append s.bracket_outside [], hempty, Bool.false_eq_true, if_false,
    Option.pure_def]

/-- A chord that is defined so has the one note. -/
theorem read_definition (p : Program) {chord : List Char} (hchord : IsWord chord) :
    (Program.addChords (s.definition chord) p).program.chords.find? (String.ofList chord) =
      some (.list [plainNote s.text]) := by
  have hfinds : findAll Program.chord? (s.definition chord) =
      [⟨0, (s.definition chord).length, ⟨chord, s.text⟩⟩] :=
    find_all_whole (s.find_definition hchord)
  have hnotes : Program.ChordText.value ⟨chord, s.text⟩ = [plainNote s.text] := by
    rw [Program.ChordText.value, words_solid s.text_ne_nil s.text_solid]
    rfl
  rw [Program.addChords, hfinds, ← hnotes]
  exact Table.find_bind_self _ _ _

theorem read_items : Performance.collectionItems? (.text (String.ofList s.bracketed)) =
    some [plainNote s.text] := by
  have hlast : s.bracketed.getLast? = some '>' := by
    rw [bracketed, ← List.cons_append, List.getLast?_concat]
  have hchord : Performance.isChordText s.bracketed = true := by
    rw [Performance.isChordText, hlast]
    rfl
  have hinner : Function.unquote s.bracketed = s.text := by
    simp [Function.unquote, bracketed]
  simp only [Performance.collectionItems?, String.toList_ofList, hchord, if_true, hinner,
    words_solid s.text_ne_nil s.text_solid, List.map_cons, List.map_nil]

end Spelling

inductive Reader where
  | line
  | literal
  | definition
  | iteration
deriving DecidableEq, Repr

namespace Reader

/-- Read at this place, the spelling gives the one note with its octave behind its name, and with
its accidental or with none. The chord of the definition is called `chord`. -/
def ReadsAsMeant (manner : Manner) (ctx : Context) (p : Program) (chord : List Char)
    (s : Spelling) :
    Reader → Prop
  | .line => readLine manner ctx (playLine s.text Spelling.lasting) =
      .ofCommand (ofNote s.name s.sign Spelling.lasting)
  | .literal => readLine manner ctx (playLine s.bracketed Spelling.lasting) =
      .ofCommand (.playChord none (some (.list [noteValue s.name s.sign]))
        (textSlot Spelling.lasting))
  | .definition =>
    (Program.addChords (s.definition chord) p).program.chords.find? (String.ofList chord) =
      some (.list [noteValue s.name s.sign])
  | .iteration => Performance.collectionItems? (.text (String.ofList s.bracketed)) =
      some [noteValue s.name s.sign]

def Manages (s : Spelling) : Reader → Prop
  | .line => s.sign ≠ some 'b'
  | .literal => s.sign = none → s.base ≠ ['b']
  | .definition | .iteration =>
    (s.sign = none → s.base ≠ ['b']) ∧ (s.sign ≠ none → s.octave = [])

theorem reads_iff_manages (manner : Manner) (ctx : Context) (p : Program) {chord : List Char}
    (hchord : IsWord chord) (s : Spelling)
    (hnote : ctx.chords.find? (String.ofList s.text) = none) (r : Reader) :
    r.ReadsAsMeant manner ctx p chord s ↔ r.Manages s := by
  cases r with
  | line => exact s.read_line_iff manner ctx hnote
  | literal =>
    rw [ReadsAsMeant, s.read_chord, Manages, ← s.literal_note_iff]
    simp [Reading.ofCommand]
  | definition =>
    rw [ReadsAsMeant, s.read_definition p hchord, Manages, ← s.plain_note_iff]
    simp
  | iteration =>
    rw [ReadsAsMeant, s.read_items, Manages, ← s.plain_note_iff]
    simp

theorem all_manage_iff (s : Spelling) : (∀ r : Reader, r.Manages s) ↔
    (s.sign = none ∧ s.base ≠ ['b']) ∨ (s.sign = some '#' ∧ s.octave = []) := by
  constructor
  · intro h
    obtain ⟨hbase, hoctave⟩ : Manages s .definition := h .definition
    rcases s.sign_cases with hsign | hsign | hsign
    · exact .inl ⟨hsign, hbase hsign⟩
    · exact .inr ⟨hsign, hoctave (by simp [hsign])⟩
    · exact absurd hsign (h .line)
  · rintro (⟨hsign, hbase⟩ | ⟨hsign, hoctave⟩) r
    · cases r <;> simp [Manages, hsign, hbase]
    · cases r <;> simp [Manages, hsign, hoctave]

end Reader

/-- What each place reads as it is meant, and what all four do: the natural notes but the one that
is called like a flat, with or without an octave, and the sharps without an octave. -/
theorem readers_agree_iff (manner : Manner) (ctx : Context) (p : Program) {chord : List Char}
    (hchord : IsWord chord) (s : Spelling)
    (hnote : ctx.chords.find? (String.ofList s.text) = none) :
    (∀ r : Reader, r.ReadsAsMeant manner ctx p chord s ↔ r.Manages s) ∧
      ((∀ r : Reader, r.ReadsAsMeant manner ctx p chord s) ↔
        (s.sign = none ∧ s.base ≠ ['b']) ∨ (s.sign = some '#' ∧ s.octave = [])) := by
  have hreads := Reader.reads_iff_manages manner ctx p hchord s hnote
  refine ⟨hreads, ?_⟩
  rw [← Reader.all_manage_iff]
  exact forall_congr' hreads

def highSharp : Spelling where
  base := "do".toList
  sign := some '#'
  octave := ['4']
  named := by decide
  signed := by simp [Line.isAccidental]
  digits := by decide

theorem high_sharp_misread :
    Reader.literal.ReadsAsMeant .diagnosing {} {} ['X'] highSharp ∧
      ¬ Reader.definition.ReadsAsMeant .diagnosing {} {} ['X'] highSharp ∧
      ¬ ∀ r : Reader, r.ReadsAsMeant .diagnosing {} {} ['X'] highSharp := by
  have hchord : IsWord ['X'] := ⟨by decide, by decide⟩
  have hagree := readers_agree_iff .diagnosing {} {} hchord highSharp rfl
  refine ⟨(hagree.1 .literal).mpr ?_, fun h => ?_, fun h => ?_⟩
  · simp [Reader.Manages, highSharp]
  · have hmanages := (hagree.1 .definition).mp h
    simp [Reader.Manages, highSharp] at hmanages
  · have hall := hagree.2.mp h
    simp [highSharp] at hall

end Melody.Command
