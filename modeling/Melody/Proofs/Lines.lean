import Mathlib.Data.List.DropRight
import Mathlib.Data.List.TakeWhile
import Mathlib.Tactic.SplitIfs
import Melody.Proofs.Characters
import Melody.Proofs.Plain

/-!
# Words, numerals and lines of known spelling

What the recognisers of lines answer on a note, a pause and an instrument spelled with words, and
what is read from the digits of a number.
-/

set_option autoImplicit false

namespace Melody.Text

structure IsWord (cs : List Char) : Prop where
  nonempty : cs ≠ []
  chars : ∀ c ∈ cs, isWordChar c

def Stops (p : Char → Bool) (cs : List Char) : Prop :=
  ∀ c ∈ cs.head?, p c = false

theorem stops_cons {p : Char → Bool} {c : Char} {cs : List Char} (h : p c = false) :
    Stops p (c :: cs) := by
  simpa [Stops] using h

theorem stops_append {p : Char → Bool} {a b : List Char} (ha : Stops p a) (hb : Stops p b) :
    Stops p (a ++ b) := by
  cases a with
  | nil => exact hb
  | cons c a => exact stops_cons (ha c rfl)

theorem take_while_stops {p : Char → Bool} {cs : List Char} (h : Stops p cs) :
    cs.takeWhile p = [] ∧ cs.dropWhile p = cs := by
  cases cs with
  | nil => exact ⟨rfl, rfl⟩
  | cons c cs =>
    have hc : p c = false := h c rfl
    simp [hc]

theorem stops_drop_while (p : Char → Bool) (cs : List Char) : Stops p (cs.dropWhile p) := by
  induction cs with
  | nil => exact fun c hc => absurd hc (Option.not_mem_none c)
  | cons c cs ih =>
    cases hc : p c with
    | true => rwa [List.dropWhile_cons_of_pos hc]
    | false =>
      rw [List.dropWhile_cons_of_neg (by simp [hc])]
      exact stops_cons hc

theorem stops_front {p : Char → Bool} {front rest : List Char} (h : Stops p (front ++ rest)) :
    Stops p front := by
  cases front with
  | nil => exact fun c hc => absurd hc (Option.not_mem_none c)
  | cons c front => exact stops_cons (h c rfl)

theorem run_append {p : Char → Bool} {w rest : List Char} (hne : w ≠ []) (hw : ∀ c ∈ w, p c)
    (hr : Stops p rest) : run? p (w ++ rest) = some (w, rest) := by
  have ht : (w ++ rest).takeWhile p = w := by
    rw [List.takeWhile_append_of_pos hw, (take_while_stops hr).1, List.append_nil]
  have hd : (w ++ rest).dropWhile p = rest := by
    rw [List.dropWhile_append_of_pos hw, (take_while_stops hr).2]
  unfold run?
  rw [ht, hd]
  cases w with
  | nil => contradiction
  | cons c w => rfl

theorem word_append {w rest : List Char} (hw : IsWord w) (hr : Stops isWordChar rest) :
    word? (w ++ rest) = some (w, rest) :=
  run_append hw.nonempty hw.chars hr

theorem word_whole {w : List Char} (hw : IsWord w) : word? w = some (w, []) := by
  have hword : word? (w ++ []) = some (w, []) := word_append hw nofun
  rwa [List.append_nil] at hword

theorem skip_word {w : List Char} (hw : IsWord w) (rest : List Char) :
    skipBlanks (w ++ rest) = w ++ rest := by
  obtain ⟨hne, hc⟩ := hw
  cases w with
  | nil => contradiction
  | cons c w =>
    have hb := word_not_blank (hc c (by simp))
    rw [List.cons_append, skipBlanks, List.dropWhile_cons_of_neg (by simp [hb])]

theorem drop_text_append (w rest : List Char) : dropText? w (w ++ rest) = some rest := by
  induction w with
  | nil => rfl
  | cons c w ih => rw [List.cons_append, dropText?, if_pos rfl, ih]

theorem drop_text_word {c : Char} {w : List Char} (hc : isWordChar c = false) (hw : IsWord w)
    (rest : List Char) : dropText? [c] (w ++ rest) = none := by
  obtain ⟨hne, hchars⟩ := hw
  cases w with
  | nil => contradiction
  | cons d w =>
    have hd : c ≠ d := by
      rintro rfl
      rw [hchars c (by simp)] at hc
      contradiction
    rw [List.cons_append, dropText?, if_neg hd]

theorem split_on_ne_nil (sep : Char) (cs : List Char) : splitOn sep cs ≠ [] := by
  induction cs with
  | nil => simp [splitOn]
  | cons c cs ih =>
    rw [splitOn]
    split_ifs
    · simp
    · split <;> simp

theorem split_on_append (sep : Char) (a b : List Char) :
    splitOn sep (a ++ sep :: b) = splitOn sep a ++ splitOn sep b := by
  induction a with
  | nil => simp [splitOn]
  | cons c a ih =>
    rw [List.cons_append, splitOn, splitOn, ih]
    split_ifs
    · rw [List.cons_append]
    · cases h : splitOn sep a with
      | nil => exact absurd h (split_on_ne_nil sep a)
      | cons piece pieces => rfl

theorem split_on_none {sep : Char} {cs : List Char} (h : sep ∉ cs) : splitOn sep cs = [cs] := by
  induction cs with
  | nil => rfl
  | cons c cs ih =>
    obtain ⟨hc, hcs⟩ := not_or.mp (mt List.mem_cons.mpr h)
    rw [splitOn, if_neg (Ne.symm hc), ih hcs]

structure Tight (cs : List Char) : Prop where
  start : Stops isBlank cs
  stop : Stops isBlank cs.reverse

theorem tight_strip {gap core gap' : List Char} (hg : ∀ c ∈ gap, isBlank c) (hc : Tight core)
    (hg' : ∀ c ∈ gap', isBlank c) : strip (gap ++ (core ++ gap')) = core := by
  have hfront : (gap ++ (core ++ gap')).dropWhile isBlank = (core ++ gap').dropWhile isBlank :=
    List.dropWhile_append_of_pos hg
  have hback : (gap'.reverse ++ core.reverse).dropWhile isBlank = core.reverse := by
    rw [List.dropWhile_append_of_pos (by simpa using hg'), (take_while_stops hc.stop).2]
  rw [strip, hfront]
  cases core with
  | nil =>
    rw [List.nil_append, List.dropWhile_eq_nil_iff.mpr hg']
    rfl
  | cons c core =>
    have hstart : ((c :: core) ++ gap').dropWhile isBlank = (c :: core) ++ gap' :=
      (take_while_stops (stops_cons (hc.start c rfl))).2
    rw [hstart, List.reverse_append, hback, List.reverse_reverse]

theorem strip_tight {cs : List Char} (h : Tight cs) : strip cs = cs := by
  have hstrip : strip ([] ++ (cs ++ [])) = cs := tight_strip nofun h nofun
  rwa [List.nil_append, List.append_nil] at hstrip

theorem strip_leaves_tight (cs : List Char) : Tight (strip cs) := by
  constructor
  · obtain ⟨rest, hrest⟩ : strip cs <+: cs.dropWhile isBlank :=
      List.rdropWhile_prefix isBlank _
    have hstops := stops_drop_while isBlank cs
    rw [← hrest] at hstops
    exact stops_front hstops
  · rw [strip, List.reverse_reverse]
    exact stops_drop_while isBlank _

theorem strip_blank_cons {c : Char} (h : isBlank c) (cs : List Char) :
    strip (c :: cs) = strip cs := by
  rw [strip, strip, List.dropWhile_cons_of_pos h]

theorem strip_blank_end {c : Char} (h : isBlank c) (cs : List Char) :
    strip (cs ++ [c]) = strip cs := by
  rw [strip, strip, List.dropWhile_append]
  split
  · rename_i hempty
    rw [List.dropWhile_cons_of_pos h, List.isEmpty_iff.mp hempty]
    rfl
  · rw [List.reverse_append, List.reverse_singleton, List.singleton_append,
      List.dropWhile_cons_of_pos h]

end Melody.Text

namespace Melody.Number

open Melody.Text

theorem digit_value {c : Char} (h : c.isDigit) : digitValue? c = some (c.toNat - 48) := by
  rw [digitValue?, if_pos h]

theorem digit_not_padding {c : Char} (h : c.isDigit) : isPadding c = false := by
  have hword : isWordChar c := by simp [isWordChar, Char.isAlphanum, h]
  simp [isPadding, word_not_blank hword]

theorem digit_run_digits {cs : List Char} (h : ∀ c ∈ cs, c.isDigit) (before : List Nat)
    {last : Option Char} (hl : last ≠ some '_') :
    digitRunAfter before last cs =
      some (before.reverse ++ cs.map fun c => c.toNat - 48, []) := by
  induction cs generalizing before last with
  | nil => simp [digitRunAfter, hl]
  | cons c cs ih =>
    simp only [digitRunAfter, digit_value (h c (by simp))]
    rw [ih (fun c hc => h c (by simp [hc])) _ (by decide)]
    simp

theorem trim_digits {cs : List Char} (h : ∀ c ∈ cs, c.isDigit) : trimPadding cs = cs := by
  have hdrop {ds : List Char} (hd : ∀ c ∈ ds, c.isDigit) : ds.dropWhile isPadding = ds := by
    cases ds with
    | nil => rfl
    | cons c ds => simp [digit_not_padding (hd c (by simp))]
  rw [trimPadding, hdrop h, hdrop (by simpa using h), List.reverse_reverse]

theorem sign_digits {cs : List Char} (h : ∀ c ∈ cs, c.isDigit) : readSign cs = (false, cs) := by
  unfold readSign
  split
  · exact absurd (h '-' (by simp)) (by decide)
  · exact absurd (h '+' (by simp)) (by decide)
  · rfl

theorem digits_value_eq (cs : List Char) (n : Nat) :
    (cs.map fun c => c.toNat - 48).foldl (fun n d => 10 * n + d) n = Nat.ofDigitChars 10 cs n := by
  rw [List.foldl_map, Nat.ofDigitChars_eq_foldl]
  rfl

/-- A number is read back from its digits unless these are too many. -/
theorem read_digits (n : Nat) :
    readInt (Nat.toDigits 10 n) =
      if maxIntegerDigits < (Nat.toDigits 10 n).length then
        .error (.tooManyDigits (Nat.toDigits 10 n).length)
      else .ok n := by
  have hdigits : ∀ c ∈ Nat.toDigits 10 n, c.isDigit := fun c hc =>
    Nat.isDigit_of_mem_toDigits (by decide) (by decide) hc
  have hvalue : digitsValue ((Nat.toDigits 10 n).map fun c => c.toNat - 48) = n := by
    rw [digitsValue, digits_value_eq, Nat.ofDigitChars_ten_toDigits]
  have hempty : ((Nat.toDigits 10 n).map fun c => c.toNat - 48).isEmpty = false := by
    simp [Nat.toDigits_ne_nil]
  unfold readInt
  rw [trim_digits hdigits, sign_digits hdigits]
  dsimp only
  rw [digitRun, digit_run_digits hdigits [] (by decide), List.reverse_nil, List.nil_append]
  simp [hempty, hvalue]

end Melody.Number

namespace Melody.Command

open Melody.Text

def playLine (note duration : List Char) : List Char :=
  "tocar ".toList ++ (note ++ ' ' :: duration)

def pauseLine (duration : List Char) : List Char :=
  "pausa ".toList ++ duration

def instrumentLine (name : List Char) : List Char :=
  "instrumento ".toList ++ name

theorem recognise_play {note duration : List Char} (hn : IsWord note) (hd : IsWord duration)
    (ha : Line.accidental? duration = none) :
    Line.recognise (playLine note duration) = some (.named note duration) := by
  have hkey : Line.keyword? "tocar" (playLine note duration) =
      some (note ++ ' ' :: duration) := by
    change some (skipBlanks (note ++ ' ' :: duration)) = _
    rw [skip_word hn]
  have hchord : Line.literalChord? (playLine note duration) = none := by
    simp only [Line.literalChord?, hkey, Option.bind_eq_bind, Option.bind_some,
      drop_text_word (show isWordChar '<' = false by decide) hn, Option.bind_none]
  have hblanks : blanks? (' ' :: duration) = some duration := by
    have := skip_word hd []
    rw [List.append_nil] at this
    exact congrArg some this
  have hnamed : Line.named? (playLine note duration) = some (.named note duration) := by
    simp only [Line.named?, hkey, Option.bind_eq_bind, Option.bind_some,
      word_append hn (stops_cons (show isWordChar ' ' = false by decide)), hblanks, ha,
      word_whole hd, Option.pure_def]
  have h₁ : dropText? "inicio_paralelo".toList (playLine note duration) = none := rfl
  have h₂ : dropText? "fim_paralelo".toList (playLine note duration) = none := rfl
  simp only [Line.recognise, Line.forms, List.findSome?_cons, h₁, h₂, hchord, hnamed,
    Option.map_none]

/-- A keyword with a word after it. -/
theorem keyword_word_skip {word : String} {line w : List Char} (hw : IsWord w)
    (h : Line.keyword? word line = some (skipBlanks w)) :
    Line.keywordWord? word line = some w := by
  have hs := skip_word hw []
  rw [List.append_nil] at hs
  simp only [Line.keywordWord?, h, hs, Option.bind_eq_bind, Option.bind_some, word_whole hw,
    Option.pure_def]

-- The forms in front of the one that counts fail on the first letters, so they compute away.

theorem recognise_pause {duration : List Char} (hd : IsWord duration) :
    Line.recognise (pauseLine duration) = some (.pause duration) := by
  have hkey := keyword_word_skip hd (show Line.keyword? "pausa" (pauseLine duration) = _ from rfl)
  have hforms : Line.recognise (pauseLine duration) =
      (Line.forms.drop 9).findSome? fun form => form (pauseLine duration) := rfl
  rw [hforms]
  simp only [Line.forms, List.drop_succ_cons, List.drop_zero, List.findSome?_cons, hkey,
    Option.map_some]

theorem recognise_instrument {name : List Char} (hn : IsWord name) :
    Line.recognise (instrumentLine name) = some (.instrument name) := by
  have hkey := keyword_word_skip hn
    (show Line.keyword? "instrumento" (instrumentLine name) = _ from rfl)
  have hforms : Line.recognise (instrumentLine name) =
      (Line.forms.drop 13).findSome? fun form => form (instrumentLine name) := rfl
  rw [hforms]
  simp only [Line.forms, List.drop_succ_cons, List.drop_zero, List.findSome?_cons, hkey,
    Option.map_some]

theorem read_play (manner : Manner) (ctx : Context) {note duration : List Char}
    (hn : IsWord note) (hd : IsWord duration) (ha : Line.accidental? duration = none)
    (hc : ctx.chords.find? (String.ofList note) = none) :
    readLine manner ctx (playLine note duration) = .ofCommand (ofNote note none duration) := by
  simp only [read_line_eq, lineReading, recognise_play hn hd ha, readNamed, hc]

theorem read_pause (manner : Manner) (ctx : Context) {duration : List Char}
    (hd : IsWord duration) :
    readLine manner ctx (pauseLine duration) = .ofCommand (.pause (textSlot duration)) := by
  simp only [read_line_eq, lineReading, recognise_pause hd]

theorem read_instrument (manner : Manner) (ctx : Context) {name : List Char} (hn : IsWord name) :
    readLine manner ctx (instrumentLine name) = .ofCommand (.instrument (textSlot name)) := by
  simp only [read_line_eq, lineReading, recognise_instrument hn]

def isCut (c : Char) : Bool :=
  c == ';' || c == '\n'

theorem lines_cut {c : Char} (h : isCut c) (a b : List Char) :
    statementLines (a ++ c :: b) = statementLines a ++ statementLines b := by
  have hcut : (if c = ';' then '\n' else c) = '\n' := by
    rcases (by simpa [isCut] using h : c = ';' ∨ c = '\n') with rfl | rfl
    · rfl
    · rfl
  simp only [statementLines, lines, List.map_append, List.map_cons, hcut, split_on_append,
    List.filter_append]

theorem lines_uncut {cs : List Char} (h : ∀ c ∈ cs, isCut c = false) :
    statementLines cs = if (strip cs).isEmpty then [] else [strip cs] := by
  have hmap : cs.map (fun c => if c = ';' then '\n' else c) = cs := by
    refine (List.map_congr_left fun c hc => ?_).trans (List.map_id cs)
    have := h c hc
    simp only [isCut, Bool.or_eq_false_iff, beq_eq_false_iff_ne] at this
    rw [if_neg this.1, id]
  have hline : '\n' ∉ cs := fun hmem => absurd (h _ hmem) (by decide)
  rw [statementLines, hmap, lines, split_on_none hline]
  cases hs : (strip cs).isEmpty <;> simp [hs]

theorem lines_blank {c : Char} (h : isBlank c) (cs : List Char) :
    statementLines (c :: cs) = statementLines cs := by
  have hc : (if c = ';' then '\n' else c) = c := if_neg (by rintro rfl; contradiction)
  simp only [statementLines, lines, List.map_cons, hc]
  rw [splitOn]
  split_ifs
  · rfl
  · cases hs : splitOn '\n' (cs.map fun c => if c = ';' then '\n' else c) with
    | nil => exact absurd hs (split_on_ne_nil _ _)
    | cons piece pieces => simp only [List.map_cons, strip_blank_cons h]

theorem lines_gap {gap : List Char} (h : ∀ c ∈ gap, isBlank c) (cs : List Char) :
    statementLines (gap ++ cs) = statementLines cs := by
  induction gap with
  | nil => rfl
  | cons c gap ih =>
    rw [List.cons_append, lines_blank (h c (by simp)), ih fun c hc => h c (by simp [hc])]

end Melody.Command
