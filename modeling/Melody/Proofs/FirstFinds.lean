import Melody.Program.Definition
import Melody.Proofs.Lines

/-!
# The first find on either side of a character

A recogniser that has no use for a character stops in front of it, so what it finds first in a text
is what it finds first before the character or else what it finds first behind it. The forms of the
tempo and of the waveform have no use for braces. The form of an envelope has: it starts before an
opening brace if that brace stands behind the word itself, and it ends with a closing brace.
-/

set_option autoImplicit false

namespace Melody.Text

variable {α β : Type}

def Avoids (c : Char) (recognise : List Char → Option (α × List Char)) : Prop :=
  ∀ a b, recognise (a ++ c :: b) = (recognise a).map fun found => (found.1, found.2 ++ c :: b)

def StepAvoids (c : Char) (step : List Char → Option (List Char)) : Prop :=
  ∀ a b, step (a ++ c :: b) = (step a).map (· ++ c :: b)

section Avoid

variable {c : Char}

theorem drop_text_avoids {w : List Char} (h : c ∉ w) : StepAvoids c (dropText? w) := by
  intro a b
  induction w generalizing a with
  | nil => rfl
  | cons t w ih =>
    obtain ⟨hc, hw⟩ := not_or.mp (mt List.mem_cons.mpr h)
    cases a with
    | nil => exact if_neg (Ne.symm hc)
    | cons d a =>
      rw [List.cons_append, dropText?, dropText?]
      split
      · exact ih hw a
      · rfl

theorem skip_avoids (h : isBlank c = false) (a b : List Char) :
    skipBlanks (a ++ c :: b) = skipBlanks a ++ c :: b := by
  unfold skipBlanks
  rw [List.dropWhile_append]
  split
  · rename_i hnil
    rw [List.isEmpty_iff.mp hnil, List.dropWhile_cons_of_neg (by simp [h]), List.nil_append]
  · rfl

theorem blanks_avoids (h : isBlank c = false) : StepAvoids c blanks? := by
  intro a b
  cases a with
  | nil => exact if_neg (by simp [h])
  | cons d a =>
    rw [List.cons_append, blanks?, blanks?]
    split
    · rw [skip_avoids h]
      rfl
    · rfl

theorem run_avoids {p : Char → Bool} (h : p c = false) : Avoids c (run? p) := by
  intro a b
  have htake : (a ++ c :: b).takeWhile p = a.takeWhile p := by
    rw [List.takeWhile_append]
    split
    · rename_i hall
      rw [List.takeWhile_cons_of_neg (by simp [h]), List.append_nil]
      exact ((List.takeWhile_prefix p).eq_of_length hall).symm
    · rfl
  have hdrop : (a ++ c :: b).dropWhile p = a.dropWhile p ++ c :: b := by
    rw [List.dropWhile_append]
    split
    · rename_i hnil
      rw [List.isEmpty_iff.mp hnil, List.dropWhile_cons_of_neg (by simp [h]), List.nil_append]
    · rfl
  unfold run?
  rw [htake, hdrop]
  cases a.takeWhile p with
  | nil => rfl
  | cons d run => rfl

theorem StepAvoids.then {step next : List Char → Option (List Char)} (h : StepAvoids c step)
    (hn : StepAvoids c next) : StepAvoids c fun cs => step cs >>= next := by
  intro a b
  dsimp only
  rw [h a b]
  cases step a with
  | none => rfl
  | some rest => exact hn rest b

theorem StepAvoids.find {step : List Char → Option (List Char)}
    {recognise : List Char → Option (α × List Char)} (h : StepAvoids c step)
    (hr : Avoids c recognise) : Avoids c fun cs => step cs >>= recognise := by
  intro a b
  dsimp only
  rw [h a b]
  cases step a with
  | none => rfl
  | some rest => exact hr rest b

theorem Avoids.find {recognise : List Char → Option (α × List Char)}
    {next : α → List Char → Option (β × List Char)} (h : Avoids c recognise)
    (hn : ∀ item, Avoids c (next item)) :
    Avoids c fun cs => recognise cs >>= fun found => next found.1 found.2 := by
  intro a b
  dsimp only
  rw [h a b]
  cases recognise a with
  | none => rfl
  | some found => exact hn found.1 found.2 b

theorem avoids_some (item : α) : Avoids c fun cs => some (item, cs) :=
  fun _ _ => rfl

theorem StepAvoids.item {step : List Char → Option (List Char)} (h : StepAvoids c step) (item : α) :
    Avoids c fun cs => step cs >>= fun rest => some (item, rest) := by
  intro a b
  dsimp only
  rw [h a b]
  cases step a with
  | none => rfl
  | some rest => rfl

theorem StepAvoids.skip {step : List Char → Option (List Char)} (h : StepAvoids c step)
    (hc : isBlank c = false) : StepAvoids c fun cs => step (skipBlanks cs) := by
  intro a b
  dsimp only
  rw [skip_avoids hc, h]

theorem Avoids.skip {recognise : List Char → Option (α × List Char)} (h : Avoids c recognise)
    (hc : isBlank c = false) : Avoids c fun cs => recognise (skipBlanks cs) := by
  intro a b
  dsimp only
  rw [skip_avoids hc, h]

theorem search_nil {recognise : List Char → Option (α × List Char)} (h : recognise [] = none) :
    searchFirst recognise [] = none := by
  rw [searchFirst, h]
  rfl

theorem search_none {recognise : List Char → Option (α × List Char)} {d : Char} {cs : List Char}
    (h : recognise (d :: cs) = none) :
    searchFirst recognise (d :: cs) = searchFirst recognise cs := by
  rw [searchFirst, h]

/-- A recogniser that has no use for the character finds its first item before it or behind it. -/
theorem search_avoids {recognise : List Char → Option (α × List Char)} (h : Avoids c recognise)
    (hnil : recognise [] = none) (a b : List Char) :
    searchFirst recognise (a ++ c :: b) =
      (searchFirst recognise a).or (searchFirst recognise b) := by
  induction a with
  | nil =>
    have hc := h [] b
    rw [List.nil_append, hnil, Option.map_none] at hc
    rw [List.nil_append, search_nil hnil, Option.none_or, search_none hc]
  | cons d a ih =>
    have hd := h (d :: a) b
    rw [List.cons_append] at hd ⊢
    rw [searchFirst, searchFirst, hd]
    cases recognise (d :: a) with
    | none => exact ih
    | some found => rfl

end Avoid

end Melody.Text

namespace Melody.Program

open Melody.Text
open Melody.Command.Line (blockSetting? keywordWord? keyword?)

def IsBrace (c : Char) : Prop :=
  c = '{' ∨ c = '}'

section Brace

variable {c : Char} (hc : IsBrace c)

include hc

theorem brace_not_blank : isBlank c = false := by
  rcases hc with rfl | rfl <;> decide

theorem brace_not_mem {w : List Char} (h : '{' ∉ w ∧ '}' ∉ w) : c ∉ w := by
  rcases hc with rfl | rfl
  · exact h.1
  · exact h.2

theorem brace_class {p : Char → Bool} (h : p '{' = false ∧ p '}' = false) : p c = false := by
  rcases hc with rfl | rfl
  · exact h.1
  · exact h.2

theorem tempo_equals_avoids : Avoids c tempoEquals? := by
  have hblank := brace_not_blank hc
  have hword : StepAvoids c (dropText? "tempo".toList) :=
    drop_text_avoids (brace_not_mem hc (by decide))
  have hsign : StepAvoids c (dropText? ['=']) := drop_text_avoids (brace_not_mem hc (by decide))
  have hdigits : Avoids c digits? := run_avoids (brace_class hc (by decide))
  exact hword.find ((hsign.skip hblank).find (hdigits.skip hblank))

theorem tempo_spaced_avoids : Avoids c tempoSpaced? := by
  have hword : StepAvoids c (dropText? "tempo".toList) :=
    drop_text_avoids (brace_not_mem hc (by decide))
  have hdigits : Avoids c digits? := run_avoids (brace_class hc (by decide))
  exact hword.find ((blanks_avoids (brace_not_blank hc)).find hdigits)

theorem waveform_avoids : Avoids c waveform? := by
  have hkeyword : StepAvoids c (dropText? "forma_onda".toList) :=
    drop_text_avoids (brace_not_mem hc (by decide))
  have hword : Avoids c word? := run_avoids (brace_class hc (by decide))
  exact hkeyword.find ((blanks_avoids (brace_not_blank hc)).find hword)

/-- The instrument is read from what stands before a brace. -/
theorem instrument_avoids (a b : List Char) : findInstrument (a ++ c :: b) = findInstrument a := by
  have hkeyword : StepAvoids c (dropText? "instrumento".toList) :=
    drop_text_avoids (brace_not_mem hc (by decide))
  have hword : Avoids c word? := run_avoids (brace_class hc (by decide))
  have hfind := (hkeyword.then (blanks_avoids (brace_not_blank hc))).find hword a b
  have hmap (cs : List Char) : findInstrument cs =
      ((keyword? "instrumento" cs >>= word?).map Prod.fst) := by
    unfold findInstrument keywordWord?
    cases keyword? "instrumento" cs with
    | none => rfl
    | some rest => cases hw : word? rest <;> simp [hw]
  rw [hmap, hmap]
  change ((keyword? "instrumento" (a ++ c :: b) >>= word?)) = _ at hfind
  rw [hfind, Option.map_map]
  rfl

theorem setting_avoids (name : String) (h : '{' ∉ name.toList ∧ '}' ∉ name.toList) :
    Avoids c (blockSetting? name) := by
  have hblank := brace_not_blank hc
  have hname : StepAvoids c (dropText? name.toList) := drop_text_avoids (brace_not_mem hc h)
  have hsign : StepAvoids c (dropText? ['=']) := drop_text_avoids (brace_not_mem hc (by decide))
  have hend : StepAvoids c (dropText? [';']) := drop_text_avoids (brace_not_mem hc (by decide))
  have hnumber : Avoids c (run? Command.Line.isAnyDecimal) :=
    run_avoids (brace_class hc (by decide))
  exact (hname.skip hblank).find ((hsign.skip hblank).find
    ((hnumber.skip hblank).find fun number => (hend.skip hblank).item number))

end Brace

def settings? (cs : List Char) : Option (EnvelopeText × List Char) := do
  let (attack, rest) ← blockSetting? "attack" cs
  let (decay, rest) ← blockSetting? "decay" rest
  let (sustain, rest) ← blockSetting? "sustain" rest
  let (release, rest) ← blockSetting? "release" rest
  return (⟨attack, decay, sustain, release⟩, rest)

def inside? (cs : List Char) : Option (EnvelopeText × List Char) := do
  let (settings, rest) ← settings? cs
  return (settings, ← dropText? ['}'] (skipBlanks rest))

theorem envelope_eq (cs : List Char) : envelope? cs =
    (dropText? "envelope".toList cs >>= fun rest =>
      dropText? ['{'] (skipBlanks rest) >>= inside?) := by
  unfold envelope? inside? settings?
  simp only [Option.bind_eq_bind, Option.bind_assoc, Option.pure_def, Option.bind_some]

theorem settings_avoids {c : Char} (hc : IsBrace c) : Avoids c settings? :=
  (setting_avoids hc "attack" (by decide)).find fun attack =>
    (setting_avoids hc "decay" (by decide)).find fun decay =>
      (setting_avoids hc "sustain" (by decide)).find fun sustain =>
        (setting_avoids hc "release" (by decide)).find fun release =>
          avoids_some (⟨attack, decay, sustain, release⟩ : EnvelopeText)

theorem inside_avoids : Avoids '{' inside? := by
  have hend : StepAvoids '{' (dropText? ['}']) := drop_text_avoids (by decide)
  exact (settings_avoids (.inl rfl)).find fun settings => (hend.skip (by decide)).item settings

/-- The first closing brace is the last character of an envelope. -/
theorem inside_close (a b : List Char) :
    inside? (a ++ '}' :: b) = (inside? (a ++ ['}'])).map fun found => (found.1, found.2 ++ b) := by
  unfold inside?
  rw [settings_avoids (.inr rfl) a b, settings_avoids (.inr rfl) a []]
  cases settings? a with
  | none => rfl
  | some found =>
    obtain ⟨settings, rest⟩ := found
    change (dropText? ['}'] (skipBlanks (rest ++ '}' :: b)) >>= fun r => some (settings, r)) =
      (dropText? ['}'] (skipBlanks (rest ++ ['}'])) >>= fun r => some (settings, r)).map _
    rw [skip_avoids (by decide), skip_avoids (by decide)]
    cases skipBlanks rest with
    | nil => rfl
    | cons d rest =>
      by_cases hd : '}' = d
      · subst hd
        simp [dropText?]
      · simp [dropText?, hd]

theorem envelope_close (a b : List Char) :
    envelope? (a ++ '}' :: b) =
      (envelope? (a ++ ['}'])).map fun found => (found.1, found.2 ++ b) := by
  have hword : StepAvoids '}' (dropText? "envelope".toList) := drop_text_avoids (by decide)
  have hopen (rest b : List Char) : dropText? ['{'] (skipBlanks (rest ++ '}' :: b)) =
      (dropText? ['{'] (skipBlanks rest)).map (· ++ '}' :: b) := by
    rw [skip_avoids (by decide), drop_text_avoids (by decide)]
  rw [envelope_eq, envelope_eq, hword a b, hword a []]
  cases dropText? "envelope".toList a with
  | none => rfl
  | some rest =>
    change (dropText? ['{'] (skipBlanks (rest ++ '}' :: b)) >>= inside?) =
      (dropText? ['{'] (skipBlanks (rest ++ ['}'])) >>= inside?).map _
    rw [hopen, hopen]
    cases dropText? ['{'] (skipBlanks rest) with
    | none => rfl
    | some rest => exact inside_close rest b

/-- Envelopes are found up to a closing brace or behind it. -/
theorem search_envelope_close (a b : List Char) :
    searchFirst envelope? (a ++ '}' :: b) =
      (searchFirst envelope? (a ++ ['}'])).or (searchFirst envelope? b) := by
  induction a with
  | nil => rfl
  | cons d a ih =>
    have hd := envelope_close (d :: a) b
    rw [List.cons_append, List.cons_append] at hd ⊢
    rw [searchFirst, searchFirst, hd]
    cases envelope? (d :: (a ++ ['}'])) with
    | none => exact ih
    | some found => rfl

def opensEnvelope (cs : List Char) : Bool :=
  (dropText? "envelope".toList cs).any fun rest => (skipBlanks rest).isEmpty

theorem envelope_open (a b : List Char) :
    envelope? (a ++ '{' :: b) =
      if opensEnvelope a then inside? b
      else (envelope? a).map fun found => (found.1, found.2 ++ '{' :: b) := by
  have hword : StepAvoids '{' (dropText? "envelope".toList) := drop_text_avoids (by decide)
  rw [envelope_eq, envelope_eq, hword a b, opensEnvelope]
  cases dropText? "envelope".toList a with
  | none => rfl
  | some rest =>
    change (dropText? ['{'] (skipBlanks (rest ++ '{' :: b)) >>= inside?) =
      if (skipBlanks rest).isEmpty then inside? b
      else (dropText? ['{'] (skipBlanks rest) >>= inside?).map _
    rw [skip_avoids (by decide)]
    cases skipBlanks rest with
    | nil => rfl
    | cons d rest =>
      by_cases hd : '{' = d
      · subst hd
        exact inside_avoids rest b
      · simp [dropText?, hd]

/-- Without an opening brace there is no envelope. -/
theorem search_braceless {cs : List Char} (h : '{' ∉ cs) : searchFirst envelope? cs = none := by
  have hnone {a : List Char} (ha : '{' ∉ a) : envelope? a = none := by
    rw [envelope_eq]
    cases hrest : dropText? "envelope".toList a with
    | none => rfl
    | some rest =>
      have hmem : '{' ∉ skipBlanks rest := by
        rw [drop_text_eq hrest] at ha
        intro hopen
        exact ha (List.mem_append_right _ ((List.dropWhile_suffix _).subset hopen))
      cases hdrop : dropText? ['{'] (skipBlanks rest) with
      | none => simp [hdrop]
      | some more =>
        rw [drop_text_eq hdrop] at hmem
        simp at hmem
  induction cs with
  | nil => rfl
  | cons c cs ih =>
    rw [search_none (hnone h)]
    exact ih fun hmem => h (List.mem_cons_of_mem c hmem)

theorem opens_braceless {cs : List Char} (h : opensEnvelope cs = true) : '{' ∉ cs := by
  unfold opensEnvelope at h
  obtain ⟨rest, hrest, hblank⟩ := (Option.any_eq_true _ _).mp h
  rw [drop_text_eq hrest, List.mem_append, not_or]
  refine ⟨by decide, ?_⟩
  intro hmem
  have := List.dropWhile_eq_nil_iff.mp (List.isEmpty_iff.mp hblank) '{' hmem
  cases this

def endsEnvelope : List Char → Bool
  | [] => false
  | c :: cs => opensEnvelope (c :: cs) || endsEnvelope cs

theorem search_open (a b : List Char) :
    searchFirst envelope? (a ++ '{' :: b) = (searchFirst envelope? a).or
      (if endsEnvelope a then ((inside? b).map Prod.fst).or (searchFirst envelope? b)
        else searchFirst envelope? b) := by
  induction a with
  | nil => rfl
  | cons d a ih =>
    have hd := envelope_open (d :: a) b
    rw [List.cons_append] at hd ⊢
    rw [searchFirst, hd, endsEnvelope]
    cases hopens : opensEnvelope (d :: a) with
    | false =>
      rw [if_neg (by simp), Bool.false_or, searchFirst]
      cases envelope? (d :: a) with
      | none => exact ih
      | some found => rfl
    | true =>
      -- no envelope starts within the word, so only the brace behind it counts
      have hbraceless := opens_braceless hopens
      have hrest : '{' ∉ a := fun hmem => hbraceless (List.mem_cons_of_mem d hmem)
      rw [search_braceless hrest, Option.none_or] at ih
      rw [if_pos rfl, Bool.true_or, if_pos rfl, search_braceless hbraceless, Option.none_or]
      cases hinside : inside? b with
      | some found => rfl
      | none =>
        rw [hinside, Option.map_none, Option.none_or, ite_self] at ih
        exact ih

/-- Envelopes are found before an opening brace, or with it if the word stands in front of it, or
behind it. -/
theorem search_envelope_open (a b : List Char) :
    searchFirst envelope? (a ++ '{' :: b) = (searchFirst envelope? a).or
      (if endsEnvelope a then searchFirst envelope? ("envelope".toList ++ '{' :: b)
        else searchFirst envelope? ('{' :: b)) := by
  have hword := search_open "envelope".toList b
  have hnone : searchFirst envelope? "envelope".toList = none := search_braceless (by decide)
  rw [hnone, Option.none_or, if_pos (by decide)] at hword
  rw [search_open, hword]
  rfl

end Melody.Program
