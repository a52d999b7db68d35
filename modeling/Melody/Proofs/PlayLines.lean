import Melody.Proofs.Blocks
import Melody.Proofs.Lines
import Melody.Proofs.Manners

/-!
# Lines that play a note

Six forms compete for a line that begins with `tocar` and a word. The first of them is the plain
one, a note and its duration, and it does not apply to a duration that starts like a flat: that
letter is kept for an accidental that stands on its own, although it is followed by more letters
here. The line is then left to the other forms. Only the one for a note with an octave, which ends
in a digit, reads it as it is meant. The one for a note with its flat takes the last letter off
the note, if it is the letter of a flat, and all other lines are no commands.
-/

set_option autoImplicit false

namespace Melody.Command

open Melody.Text

def playText (name rest : List Char) : List Char :=
  "tocar ".toList ++ (name ++ rest)

section Forms

variable {name rest : List Char} (hn : IsWord name) (hr : Stops isWordChar rest)

include hn

theorem keyword_play : Line.keyword? "tocar" (playText name rest) = some (name ++ rest) := by
  change some (skipBlanks (name ++ rest)) = _
  rw [skip_word hn]

/-- Notes in angle brackets do not begin with a word. -/
theorem literal_chord_play : Line.literalChord? (playText name rest) = none := by
  have hbracket : isWordChar '<' = false := by decide
  simp only [Line.literalChord?, keyword_play hn, Option.bind_eq_bind, Option.bind_some,
    drop_text_word hbracket hn, Option.bind_none]

/-- A call has its parenthesis right behind the first word. -/
theorem call_play : Line.call? (playText name rest) = none := by
  have hparenthesis : isWordChar '(' = false := by decide
  have hkeyword : IsWord "tocar".toList := ⟨by decide, by decide⟩
  have hblank : isWordChar ' ' = false := by decide
  have hword : word? (playText name rest) = some ("tocar".toList, ' ' :: (name ++ rest)) :=
    word_append hkeyword (stops_cons hblank)
  have hskip : skipBlanks (' ' :: (name ++ rest)) = name ++ rest := skip_word hn rest
  simp only [Line.call?, hword, Option.bind_eq_bind, Option.bind_some, hskip,
    drop_text_word hparenthesis hn, Option.bind_none]

include hr

/-- A form that takes `tocar` and a word goes on with the text behind them. -/
theorem play_form (f : List Char × List Char → Option Line) :
    (Line.keyword? "tocar" (playText name rest) >>= fun more => word? more >>= f) =
      f (name, rest) := by
  rw [keyword_play hn, Option.bind_eq_bind, Option.bind_some, word_append hn hr,
    Option.bind_eq_bind, Option.bind_some]

def noteForms : List (List Char → Option Line) :=
  [Line.named?, Line.spacedAccidental?, Line.joinedAccidental?, Line.withOctave?,
   Line.spacedAccidentalOctave?, Line.joinedAccidentalOctave?]

omit hr in
theorem recognise_play_text :
    Line.recognise (playText name rest) =
      noteForms.findSome? fun form => form (playText name rest) := by
  have hforms : Line.forms = Line.forms.take 2 ++ (Line.literalChord? :: (noteForms ++
      ((Line.forms.drop 9).take 5 ++ [Line.call?]))) := rfl
  have hfront : ((Line.forms.take 2).findSome? fun form => form (playText name rest)) = none := rfl
  have hback : (((Line.forms.drop 9).take 5).findSome? fun form => form (playText name rest)) =
      none := rfl
  rw [Line.recognise, hforms, List.findSome?_append, hfront, List.findSome?_cons,
    literal_chord_play hn, List.findSome?_append, List.findSome?_append, hback,
    List.findSome?_cons, call_play hn]
  simp

end Forms

def endsInDigit (note : List Char) : Bool :=
  (note.getLast?.map isDecimal).getD false

/-- Between a word character and the text in front of it no duration begins. -/
theorem no_duration {cs : List Char} (h : ∀ c ∈ cs, isWordChar c) : Line.duration? cs = none := by
  cases cs with
  | nil => rfl
  | cons c cs =>
    have hc := word_not_blank (h c (by simp))
    simp [Line.duration?, blanks?, hc]

theorem flat_not_digit {note : List Char} (h : endsInDigit note) : Line.flatName? note = none := by
  unfold Line.flatName?
  split_ifs with hflat
  · simp only [Bool.and_eq_true, decide_eq_true_eq] at hflat
    rw [endsInDigit, hflat.1] at h
    contradiction
  · rfl

theorem blanks_word {d : List Char} (hd : IsWord d) : blanks? (' ' :: d) = some d := by
  have hskip := skip_word hd []
  rw [List.append_nil] at hskip
  exact congrArg some hskip

theorem duration_word {d : List Char} (hd : IsWord d) : Line.duration? (' ' :: d) = some d := by
  simp only [Line.duration?, blanks_word hd, Option.bind_eq_bind, Option.bind_some, word_whole hd,
    Option.pure_def]

section FlatDuration

variable {note more : List Char} (hn : IsWord note) (hd : IsWord ('b' :: more))

/-- The text behind the note. -/
theorem blank_stops (d : List Char) : Stops isWordChar (' ' :: d) :=
  stops_cons (by decide)

include hn hd

theorem named_flat : Line.named? (playLine note ('b' :: more)) = none := by
  have hform : Line.named? (playLine note ('b' :: more)) = _ := play_form hn (blank_stops _) _
  rw [hform]
  simp only [blanks_word hd, Option.bind_eq_bind, Option.bind_some]
  rfl

theorem spaced_flat : Line.spacedAccidental? (playLine note ('b' :: more)) = none := by
  have hmore : Line.duration? more = none := no_duration fun c hc => hd.chars c (by simp [hc])
  have hflat : Line.accidental? ('b' :: more) = some ('b', more) := rfl
  have hform : Line.spacedAccidental? (playLine note ('b' :: more)) = _ :=
    play_form hn (blank_stops _) _
  rw [hform]
  simp only [blanks_word hd, hflat, hmore, Option.bind_eq_bind, Option.bind_some, Option.bind_none]

theorem joined_flat : Line.joinedAccidental? (playLine note ('b' :: more)) =
    (Line.flatName? note).map fun base => .note base (some 'b') ('b' :: more) := by
  have hsharp : dropText? ['#'] (' ' :: 'b' :: more) = none := rfl
  have hform : Line.joinedAccidental? (playLine note ('b' :: more)) = _ :=
    play_form hn (blank_stops _) _
  rw [hform]
  simp only [hsharp, duration_word hd, Option.bind_eq_bind, Option.bind_some, Option.pure_def]
  cases Line.flatName? note with
  | none => rfl
  | some base => rfl

theorem octave_flat (hlong : 2 ≤ note.length) : Line.withOctave? (playLine note ('b' :: more)) =
    if endsInDigit note then some (.note note none ('b' :: more)) else none := by
  have hform : Line.withOctave? (playLine note ('b' :: more)) = _ := play_form hn (blank_stops _) _
  have hdigit : ((note.getLast?.map isDecimal).getD false && decide (2 ≤ note.length)) =
      endsInDigit note := by
    rw [decide_eq_true hlong, Bool.and_true, endsInDigit]
  rw [hform]
  simp only [hdigit, duration_word hd, Option.bind_eq_bind, Option.bind_some, Option.pure_def]

theorem spaced_octave_flat : Line.spacedAccidentalOctave? (playLine note ('b' :: more)) = none := by
  have hflat : Line.accidental? ('b' :: more) = some ('b', more) := rfl
  have hform : Line.spacedAccidentalOctave? (playLine note ('b' :: more)) = _ :=
    play_form hn (blank_stops _) _
  rw [hform]
  simp only [blanks_word hd, hflat, Option.bind_eq_bind, Option.bind_some]
  -- no blank stands behind the digits, since the duration is one word
  cases hdigits : digits? (skipBlanks more) with
  | none => rfl
  | some found =>
    obtain ⟨octave, rest⟩ := found
    have hrest : Line.duration? rest = none := no_duration fun c hc => hd.chars c ?_
    · simp only [Option.bind_some, hrest, Option.bind_none]
    · have hskip := (run_suffix hdigits).subset hc
      exact List.mem_cons_of_mem _ ((List.dropWhile_suffix _).subset hskip)

omit hd in
theorem joined_octave_flat (h : endsInDigit note = false) :
    Line.joinedAccidentalOctave? (playLine note ('b' :: more)) = none := by
  have hsharp : dropText? ['#'] (' ' :: 'b' :: more) = none := rfl
  have hoctave : (note.reverse.takeWhile isDecimal).reverse = [] := by
    rw [endsInDigit, ← List.head?_reverse] at h
    cases hrev : note.reverse with
    | nil => rfl
    | cons c cs =>
      rw [hrev] at h
      rw [List.takeWhile_cons_of_neg (by simpa using h), List.reverse_nil]
  have hform : Line.joinedAccidentalOctave? (playLine note ('b' :: more)) = _ :=
    play_form hn (blank_stops _) _
  rw [hform]
  simp only [hsharp, hoctave, List.isEmpty_nil, if_true, Option.bind_eq_bind]
  exact Option.bind_fun_none _

/-- What is made of a line with such a duration. -/
theorem recognise_flat_duration (hlong : 2 ≤ note.length) :
    Line.recognise (playLine note ('b' :: more)) =
      if endsInDigit note then some (.note note none ('b' :: more))
      else (Line.flatName? note).map fun base => .note base (some 'b') ('b' :: more) := by
  have hforms : Line.recognise (playLine note ('b' :: more)) = _ := recognise_play_text hn
  rw [hforms]
  change noteForms.findSome? (fun form => form (playLine note ('b' :: more))) = _
  simp only [noteForms, List.findSome?_cons, List.findSome?_nil, named_flat hn hd,
    spaced_flat hn hd, joined_flat hn hd, octave_flat hn hd hlong, spaced_octave_flat hn hd]
  by_cases hdigit : endsInDigit note
  · simp only [flat_not_digit hdigit, hdigit, if_true, Option.map_none]
  · cases hflat : Line.flatName? note with
    | none => simp [hdigit, joined_octave_flat hn (by simpa using hdigit)]
    | some base => simp [hdigit]

end FlatDuration

structure Understood (ctx : Context) (note duration : List Char) : Prop where
  commands : (readLine .diagnosing ctx (playLine note duration)).commands =
    [ofNote note none duration]
  mistakes : (readLine .diagnosing ctx (playLine note duration)).mistakes = []
  fault : (readLine .diagnosing ctx (playLine note duration)).fault = none

theorem accidental_word {d : List Char} (hd : IsWord d) :
    Line.accidental? d = none ↔ d.head? ≠ some 'b' := by
  obtain ⟨hne, hchars⟩ := hd
  cases d with
  | nil => contradiction
  | cons c d =>
    have hsharp : c ≠ '#' := by
      rintro rfl
      exact absurd (hchars '#' (by simp)) (by decide)
    simp [Line.accidental?, Line.isAccidental, hsharp]

theorem read_octave_duration (ctx : Context) {note more : List Char} (hn : IsWord note)
    (hd : IsWord ('b' :: more)) (hlong : 2 ≤ note.length) (hdigit : endsInDigit note) :
    readLine .diagnosing ctx (playLine note ('b' :: more)) =
      .ofCommand (ofNote note none ('b' :: more)) := by
  rw [read_line_eq]
  unfold lineReading
  rw [recognise_flat_duration hn hd hlong, if_pos hdigit]

/-- The note loses its flat, if it has one, and otherwise there is no command. -/
theorem read_flat_duration (ctx : Context) {note more : List Char} (hn : IsWord note)
    (hd : IsWord ('b' :: more)) (hlong : 2 ≤ note.length) (hdigit : ¬ endsInDigit note) :
    (readLine .diagnosing ctx (playLine note ('b' :: more))).commands =
      (Line.flatName? note).toList.map fun base => ofNote base (some 'b') ('b' :: more) := by
  rw [read_line_eq]
  unfold lineReading
  rw [recognise_flat_duration hn hd hlong, if_neg hdigit]
  cases Line.flatName? note with
  | none => exact (unrecognised_silent .diagnosing _).1
  | some base => rfl

theorem flattened_ne (bases : Option (List Char)) (note duration : List Char) :
    (bases.toList.map fun base => ofNote base (some 'b') duration) ≠
      [ofNote note none duration] := by
  intro h
  cases bases with
  | none => cases h
  | some base =>
    obtain ⟨-, hsign, -⟩ := Command.play.inj (List.cons.inj h).1
    cases hsign

theorem understood_of_command {ctx : Context} {note duration : List Char}
    (h : readLine .diagnosing ctx (playLine note duration) =
      .ofCommand (ofNote note none duration)) : Understood ctx note duration := by
  constructor
  · rw [h]
    rfl
  · rw [h]
    rfl
  · rw [h]
    rfl

/-- A line that plays a note for a duration is understood exactly if the duration does not start
like a flat or the note ends in a digit. On any other line the last letter of the note is taken
for its flat, or there is no command at all. -/
theorem play_understood_iff (ctx : Context) {note duration : List Char} (hnote : IsWord note)
    (hlong : 2 ≤ note.length) (hduration : IsWord duration)
    (hchord : ctx.chords.find? (String.ofList note) = none) :
    (Understood ctx note duration ↔ duration.head? ≠ some 'b' ∨ endsInDigit note) ∧
      (duration.head? = some 'b' → ¬ endsInDigit note →
        (readLine .diagnosing ctx (playLine note duration)).commands =
          (Line.flatName? note).toList.map fun base => ofNote base (some 'b') duration) := by
  by_cases hflat : duration.head? = some 'b'
  · obtain ⟨more, rfl⟩ := List.head?_eq_some_iff.mp hflat
    by_cases hdigit : endsInDigit note
    · have hread := read_octave_duration ctx hnote hduration hlong hdigit
      exact ⟨⟨fun _ => .inr hdigit, fun _ => understood_of_command hread⟩,
        fun _ hno => absurd hdigit hno⟩
    · have hread := read_flat_duration ctx hnote hduration hlong hdigit
      refine ⟨⟨fun h => ?_, fun h => ?_⟩, fun _ _ => hread⟩
      · exact absurd (hread.symm.trans h.commands) (flattened_ne _ _ _)
      · exact absurd h (by simp [hdigit])
  · have hread := read_play .diagnosing ctx hnote hduration ((accidental_word hduration).mpr hflat)
      hchord
    exact ⟨⟨fun _ => .inl hflat, fun _ => understood_of_command hread⟩,
      fun h => absurd h hflat⟩

/-- A note with an octave lasts a breve, and one without does not. -/
theorem breve_needs_octave :
    Understood {} "do4".toList "breve".toList ∧ ¬ Understood {} "do".toList "breve".toList ∧
      Understood {} "do".toList "minima".toList ∧
      (readLine .diagnosing {} (playLine "do".toList "breve".toList)).mistakes =
        [.playWithoutDuration "tocar do breve"] := by
  have hdo4 : IsWord "do4".toList := ⟨by decide, by decide⟩
  have hdo : IsWord "do".toList := ⟨by decide, by decide⟩
  have hbreve : IsWord "breve".toList := ⟨by decide, by decide⟩
  have hminima : IsWord "minima".toList := ⟨by decide, by decide⟩
  refine ⟨?_, ?_, ?_, by decide +kernel⟩
  · exact (play_understood_iff {} hdo4 (by decide) hbreve rfl).1.mpr (by decide +kernel)
  · exact fun h => absurd ((play_understood_iff {} hdo (by decide) hbreve rfl).1.mp h)
      (by decide +kernel)
  · exact (play_understood_iff {} hdo (by decide) hminima rfl).1.mpr (by decide +kernel)

end Melody.Command
