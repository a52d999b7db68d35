import Melody.Proofs.FirstFinds
import Melody.Proofs.Searches

/-!
# Recognisers that start with a keyword

A block and a definition start with their keyword, and the keyword of a definition is followed by
a certain sign or by blanks and a character of a certain class. So a search passes over every word
that does not end with the keyword, over every word with something else behind it, and over
whatever is not a letter.
-/

set_option autoImplicit false

namespace Melody.Text

variable {α : Type} {recognise : List Char → Option (α × List Char)}

def Skips (recognise : List Char → Option (α × List Char)) (cs rest : List Char) : Prop :=
  ∃ w, cs = w ++ rest ∧ Misses recognise w rest

theorem Skips.refl (cs : List Char) : Skips recognise cs cs :=
  ⟨[], rfl, trivial⟩

theorem Skips.trans {a b c : List Char} (hab : Skips recognise a b) (hbc : Skips recognise b c) :
    Skips recognise a c := by
  obtain ⟨v, rfl, hv⟩ := hab
  obtain ⟨w, rfl, hw⟩ := hbc
  exact ⟨v ++ w, (List.append_assoc v w c).symm, misses_append.mpr ⟨hv, hw⟩⟩

theorem Skips.search {cs rest : List Char} (h : Skips recognise cs rest) :
    searchFirst recognise cs = searchFirst recognise rest := by
  obtain ⟨w, rfl, hw⟩ := h
  induction w with
  | nil => rfl
  | cons c w ih => rw [List.cons_append, search_none hw.1, ih hw.2]

theorem Skips.find_all {cs rest : List Char} (h : Skips recognise cs rest) :
    ∃ w, cs = w ++ rest ∧
      findAll recognise cs = (findAll recognise rest).map (Found.shift w.length) := by
  obtain ⟨w, rfl, hw⟩ := h
  exact ⟨w, rfl, find_all_misses hw⟩

theorem search_hit {cs rest : List Char} {item : α} (h : recognise cs = some (item, rest)) :
    searchFirst recognise cs = some item := by
  cases cs with
  | nil => rw [searchFirst, h]; rfl
  | cons c cs => rw [searchFirst, h]

inductive Follow where
  | sign (c : Char)
  | run (p : Char → Bool)

def Follow.Sees : Follow → List Char → Prop
  | .sign c, cs => ∃ rest, skipBlanks cs = c :: rest
  | .run p, cs => ∃ c rest, blanks? cs = some (c :: rest) ∧ p c = true

def Follow.accepts : Follow → Char → Bool
  | .sign c, s => c = s
  | .run p, s => p s

theorem skip_gap {gap cs : List Char} (hg : ∀ c ∈ gap, isBlank c) (hs : Stops isBlank cs) :
    skipBlanks (gap ++ cs) = cs := by
  rw [skipBlanks, List.dropWhile_append_of_pos hg, (take_while_stops hs).2]

theorem Follow.accepts_of_sees {follow : Follow} {gap : List Char} (hg : ∀ c ∈ gap, isBlank c)
    {s : Char} (hs : isBlank s = false) {cs : List Char} (h : follow.Sees (gap ++ s :: cs)) :
    follow.accepts s = true := by
  cases follow with
  | sign c =>
    obtain ⟨rest, hrest⟩ := h
    rw [skip_gap hg (stops_cons hs)] at hrest
    obtain ⟨rfl, -⟩ := List.cons.inj hrest
    exact decide_eq_true rfl
  | run p =>
    obtain ⟨c, rest, hrest, hp⟩ := h
    cases gap with
    | nil =>
      rw [List.nil_append, blanks?, if_neg (by simp [hs])] at hrest
      cases hrest
    | cons b gap =>
      rw [List.cons_append, blanks?, if_pos (hg b List.mem_cons_self),
        skip_gap (fun c hc => hg c (List.mem_cons_of_mem b hc)) (stops_cons hs)] at hrest
      obtain ⟨rfl, -⟩ := List.cons.inj (Option.some.inj hrest)
      exact hp

structure Keyed (keyword : List Char) (Behind : List Char → Prop)
    (recognise : List Char → Option (α × List Char)) : Prop where
  word : IsWord keyword
  letter : keyword.head?.any Command.Line.isAnyDecimal = false
  stops : ∀ cs, Behind cs → Stops isWordChar cs
  found : ∀ {cs found}, recognise cs = some found →
    ∃ rest, dropText? keyword cs = some rest ∧ Behind rest

theorem blanks_front {c : Char} {cs rest : List Char} (h : blanks? (c :: cs) = some rest) :
    isBlank c = true := by
  rw [blanks?] at h
  split at h
  · assumption
  · cases h

theorem sign_stops {c : Char} (hc : isWordChar c = false) {cs : List Char}
    (h : (Follow.sign c).Sees cs) : Stops isWordChar cs := by
  obtain ⟨rest, hrest⟩ := h
  cases cs with
  | nil => cases hrest
  | cons d cs =>
    apply stops_cons
    by_cases hd : isBlank d = true
    · exact blank_not_word hd
    · rw [skipBlanks, List.dropWhile_cons_of_neg hd] at hrest
      obtain ⟨rfl, -⟩ := List.cons.inj hrest
      exact hc

theorem run_stops {p : Char → Bool} {cs : List Char} (h : (Follow.run p).Sees cs) :
    Stops isWordChar cs := by
  obtain ⟨c, rest, hrest, -⟩ := h
  cases cs with
  | nil => cases hrest
  | cons d cs => exact stops_cons (blank_not_word (blanks_front hrest))

section Keyed

variable {keyword : List Char} {Behind : List Char → Prop} (hk : Keyed keyword Behind recognise)

include hk

/-- Only the first letter of the keyword can start a find. -/
theorem Keyed.misses_other {c : Char} (hc : c ∉ keyword.head?) {tail rest : List Char}
    (h : Misses recognise tail rest) : Misses recognise (c :: tail) rest := by
  refine ⟨?_, h⟩
  cases hfound : recognise (c :: (tail ++ rest)) with
  | none => rfl
  | some found =>
    obtain ⟨after, hafter, -⟩ := hk.found hfound
    obtain ⟨d, w, hkey⟩ := List.exists_cons_of_ne_nil hk.word.nonempty
    rw [hkey, dropText?] at hafter
    split at hafter
    · rename_i heq
      rw [hkey, heq] at hc
      exact absurd rfl hc
    · cases hafter

theorem Keyed.misses_others {w : List Char} (hw : ∀ c ∈ w, c ∉ keyword.head?)
    {tail rest : List Char} (h : Misses recognise tail rest) :
    Misses recognise (w ++ tail) rest := by
  induction w with
  | nil => exact h
  | cons c w ih =>
    exact hk.misses_other (hw c List.mem_cons_self)
      (ih fun d hd => hw d (List.mem_cons_of_mem c hd))

theorem Keyed.misses_sign {c : Char} (hc : isWordChar c = false) {tail rest : List Char}
    (h : Misses recognise tail rest) : Misses recognise (c :: tail) rest := by
  apply hk.misses_other _ h
  intro hmem
  have hword := hk.word.chars c (List.mem_of_mem_head? hmem)
  rw [hc] at hword
  cases hword

theorem Keyed.misses_gap {gap : List Char} (hg : ∀ c ∈ gap, isBlank c) {tail rest : List Char}
    (h : Misses recognise tail rest) : Misses recognise (gap ++ tail) rest := by
  apply hk.misses_others _ h
  intro c hc hmem
  have hword := word_not_blank (hk.word.chars c (List.mem_of_mem_head? hmem))
  rw [hg c hc] at hword
  cases hword

/-- Within a word only the keyword at its end can start a find. -/
theorem Keyed.misses_word {w : List Char} (hw : ∀ c ∈ w, isWordChar c) {rest : List Char}
    (hrest : Stops isWordChar rest) (h : keyword <:+ w → ¬ Behind rest) :
    Misses recognise w rest := by
  induction w with
  | nil => trivial
  | cons c w ih =>
    refine ⟨?_, ih (fun d hd => hw d (List.mem_cons_of_mem c hd)) fun hs =>
      h (hs.trans (List.suffix_cons c w))⟩
    cases hfound : recognise (c :: (w ++ rest)) with
    | none => rfl
    | some found =>
      obtain ⟨after, hafter, hbehind⟩ := hk.found hfound
      -- the longest word in front is the keyword on one side and the suffix on the other
      have hrun := run_append (List.cons_ne_nil c w) hw hrest
      rw [List.cons_append, drop_text_eq hafter,
        run_append hk.word.nonempty hk.word.chars (hk.stops after hbehind)] at hrun
      obtain ⟨hword, rfl⟩ := Prod.mk.inj (Option.some.inj hrun)
      exact absurd hbehind (h (hword ▸ List.suffix_rfl))

theorem skips_sign {c : Char} (hc : isWordChar c = false) (cs : List Char) :
    Skips recognise (c :: cs) cs :=
  ⟨[c], rfl, hk.misses_sign hc trivial⟩

theorem skips_gap {gap : List Char} (hg : ∀ c ∈ gap, isBlank c) (cs : List Char) :
    Skips recognise (gap ++ cs) cs :=
  ⟨gap ++ [], by rw [List.append_nil], hk.misses_gap hg trivial⟩

theorem skips_number {number : List Char} (hn : ∀ c ∈ number, Command.Line.isAnyDecimal c)
    (cs : List Char) : Skips recognise (number ++ cs) cs := by
  refine ⟨number ++ [], by rw [List.append_nil], hk.misses_others ?_ trivial⟩
  intro c hc hmem
  have hletter := hk.letter
  rw [Option.mem_def.mp hmem, Option.any_some, hn c hc] at hletter
  cases hletter

theorem skips_word {w : List Char} (hw : ∀ c ∈ w, isWordChar c) {cs : List Char}
    (hcs : Stops isWordChar cs) (h : keyword <:+ w → ¬ Behind cs) : Skips recognise (w ++ cs) cs :=
  ⟨w, rfl, hk.misses_word hw hcs h⟩

end Keyed

/-- A word in front of a sign, with or without blanks between them. -/
theorem skips_word_sign {keyword : List Char} {follow : Follow}
    (hk : Keyed keyword follow.Sees recognise) {w : List Char} (hw : ∀ c ∈ w, isWordChar c)
    {gap : List Char}
    (hg : ∀ c ∈ gap, isBlank c) {s : Char} (hs : isBlank s = false) (hsign : isWordChar s = false)
    (h : keyword <:+ w → follow.accepts s = false) (cs : List Char) :
    Skips recognise (w ++ (gap ++ s :: cs)) cs := by
  have hstops : Stops isWordChar (gap ++ s :: cs) := by
    cases gap with
    | nil => exact stops_cons hsign
    | cons b gap => exact stops_cons (blank_not_word (hg b List.mem_cons_self))
  refine (skips_word hk hw hstops ?_).trans ((skips_gap hk hg _).trans (skips_sign hk hsign cs))
  intro hsuffix hsees
  have haccepts := Follow.accepts_of_sees hg hs hsees
  rw [h hsuffix] at haccepts
  cases haccepts

end Melody.Text

namespace Melody.Program

open Melody.Text

theorem run_head {p : Char → Bool} {cs w rest : List Char} (h : run? p cs = some (w, rest)) :
    ∃ c more, cs = c :: more ∧ p c = true := by
  cases cs with
  | nil => cases h
  | cons c more =>
    refine ⟨c, more, rfl, ?_⟩
    by_contra hp
    rw [run?, List.takeWhile_cons_of_neg hp] at h
    cases h

theorem keyed_tempo_equals : Keyed "tempo".toList (Follow.sign '=').Sees tempoEquals? where
  word := ⟨by decide, by decide⟩
  letter := by decide
  stops _ h := sign_stops (by decide) h
  found h := by
    obtain ⟨rest, hrest, h⟩ := Option.bind_eq_some_iff.mp h
    obtain ⟨more, hmore, -⟩ := Option.bind_eq_some_iff.mp h
    exact ⟨rest, hrest, more, drop_text_eq hmore⟩

theorem keyed_tempo_spaced : Keyed "tempo".toList (Follow.run isDecimal).Sees tempoSpaced? where
  word := ⟨by decide, by decide⟩
  letter := by decide
  stops _ h := run_stops h
  found h := by
    obtain ⟨rest, hrest, h⟩ := Option.bind_eq_some_iff.mp h
    obtain ⟨more, hmore, h⟩ := Option.bind_eq_some_iff.mp h
    obtain ⟨c, cs, rfl, hc⟩ := run_head h
    exact ⟨rest, hrest, c, cs, hmore, hc⟩

theorem keyed_envelope : Keyed "envelope".toList (Follow.sign '{').Sees envelope? where
  word := ⟨by decide, by decide⟩
  letter := by decide
  stops _ h := sign_stops (by decide) h
  found h := by
    rw [envelope_eq] at h
    obtain ⟨rest, hrest, h⟩ := Option.bind_eq_some_iff.mp h
    obtain ⟨more, hmore, -⟩ := Option.bind_eq_some_iff.mp h
    exact ⟨rest, hrest, more, drop_text_eq hmore⟩

/-- A keyword, blanks and a word. -/
theorem keyed_word {α : Type} {recognise : List Char → Option (α × List Char)} {keyword : List Char}
    {next : List Char × List Char → Option (α × List Char)} (hword : IsWord keyword)
    (hletter : keyword.head?.any Command.Line.isAnyDecimal = false)
    (h : ∀ cs, recognise cs =
      (dropText? keyword cs >>= fun rest => blanks? rest >>= fun rest => word? rest >>= next)) :
    Keyed keyword (Follow.run isWordChar).Sees recognise where
  word := hword
  letter := hletter
  stops _ h := run_stops h
  found hfound := by
    rw [h] at hfound
    obtain ⟨rest, hrest, hfound⟩ := Option.bind_eq_some_iff.mp hfound
    obtain ⟨more, hmore, hfound⟩ := Option.bind_eq_some_iff.mp hfound
    obtain ⟨⟨w, behind⟩, hw, -⟩ := Option.bind_eq_some_iff.mp hfound
    obtain ⟨c, cs, rfl, hc⟩ := run_head hw
    exact ⟨rest, hrest, c, cs, hmore, hc⟩

theorem keyed_waveform : Keyed "forma_onda".toList (Follow.run isWordChar).Sees waveform? := by
  have hform (cs : List Char) : waveform? cs = (dropText? "forma_onda".toList cs >>= fun rest =>
      blanks? rest >>= fun rest => word? rest >>= some) := by
    unfold waveform?
    simp
  exact keyed_word ⟨by decide, by decide⟩ (by decide) hform

theorem keyed_chord : Keyed "acorde".toList (Follow.run isWordChar).Sees chord? :=
  keyed_word ⟨by decide, by decide⟩ (by decide) fun _ => rfl

theorem keyed_function : Keyed "funcao".toList (Follow.run isWordChar).Sees function? :=
  keyed_word ⟨by decide, by decide⟩ (by decide) fun _ => rfl

theorem keyed_melody : Keyed "melodia".toList (Follow.run isWordChar).Sees melodyHead? :=
  keyed_word ⟨by decide, by decide⟩ (by decide) fun _ => rfl

end Melody.Program
