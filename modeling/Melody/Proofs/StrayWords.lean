import Melody.Proofs.Acceptance
import Melody.Proofs.Actions
import Melody.Proofs.Characters

/-!
# Stray words in melodies

An identifier with a semicolon behind it, directly in the block of a melody, stands where a command
is expected. Four checks look at it in turn: for malformed commands that are known, for stems of
commands in long words, for letters of `tocar`, and for a command written without its blanks. The
third one leaves a word of some length to the fourth if it has two of the letters, and the fourth
has something to say only about words that start like `tocar`. So nothing is said about the others.
-/

set_option autoImplicit false

namespace Melody.Text

theorem drop_text_prefix_iff (w cs : List Char) : (dropText? w cs).isSome ↔ w <+: cs := by
  fun_induction dropText? w cs with
  | case1 cs => simp
  | case2 t ts => simp
  | case3 t ts cs ih => rw [ih, List.prefix_cons_inj]
  | case4 t ts c cs hne => simp [List.cons_prefix_cons, hne]

/-- A text occurs in another exactly if it is a stretch of it. -/
theorem occurs_infix_iff (w cs : List Char) : occurs w cs ↔ w <:+: cs := by
  induction cs with
  | nil => simp [occurs]
  | cons c cs ih =>
    rw [occurs, Bool.or_eq_true, drop_text_prefix_iff, ih, List.infix_cons_iff]

end Melody.Text

namespace Melody.Token

open Melody.Text

structure Overlooked (t : Token) : Prop where
  long : 5 < t.text.length
  letters : 2 ≤ sharedLetters t.lowered "tocar".toList
  start : ¬ "toc".toList <+: t.lowered
  stems : t.text.length ≤ 8 ∨ ∀ stem ∈ commandStems, ¬ stem.1.toList <:+: t.lowered

theorem joined_play_nil (notes : List String) (t : Token) :
    joinedPlay notes t = [] ↔ ¬ "toc".toList <+: t.lowered := by
  rw [← drop_text_prefix_iff, joinedPlay]
  cases dropText? "toc".toList t.lowered with
  | none => simp
  | some rest =>
    dsimp only
    split <;> simp

theorem resembles_play_iff (word : List Char) :
    resemblesCommand word "tocar".toList ↔ 2 ≤ sharedLetters word "tocar".toList := by
  have hshare : ∀ n < 6, decide (0.3 < Number.ofRatio false n 5) = decide (2 ≤ n) := by
    decide +kernel
  have hletters : sharedLetters word "tocar".toList < 6 := Nat.lt_succ_of_le List.countP_le_length
  have hratio : similarity word "tocar".toList =
      .ok (Number.ofRatio false (sharedLetters word "tocar".toList) 5) := rfl
  rw [resemblesCommand, hratio]
  dsimp only
  rw [hshare _ hletters, decide_eq_true_iff]

theorem stray_identifier_nil (t : Token) :
    strayIdentifier t = [] ↔ 5 < t.text.length ∧
      2 ≤ sharedLetters t.lowered "tocar".toList ∧ ¬ "toc".toList <+: t.lowered := by
  rw [strayIdentifier]
  split
  · rename_i h
    rw [Bool.and_eq_true, resembles_play_iff, decide_eq_true_iff] at h
    rw [joined_play_nil]
    exact ⟨fun hstart => ⟨h.2, h.1, hstart⟩, fun hstray => hstray.2.2⟩
  · rename_i h
    rw [Bool.and_eq_true, resembles_play_iff, decide_eq_true_iff] at h
    simp only [List.cons_ne_nil, false_iff]
    rintro ⟨hlong, hletters, -⟩
    exact h ⟨hletters, hlong⟩

/-- No command is suggested for a word exactly if the word is short or has no stem of one. -/
theorem stem_none_iff (t : Token) :
    (if 8 < t.text.length then commandStems.find? fun s => occurs s.1.toList t.lowered
      else none) = none ↔
      t.text.length ≤ 8 ∨ ∀ stem ∈ commandStems, ¬ stem.1.toList <:+: t.lowered := by
  by_cases hlong : 8 < t.text.length
  · rw [if_pos hlong, List.find?_eq_none]
    simp only [occurs_infix_iff]
    constructor
    · exact Or.inr
    · rintro (hshort | hstems)
      · omega
      · exact hstems
  · rw [if_neg hlong]
    simp [Nat.le_of_not_lt hlong]

/-- The words that are known as malformed have nothing that could have them overlooked: they start
like `tocar`, or have too few of its letters, or are long and have the stem of a command. -/
theorem known_words : ∀ known ∈ knownMalformed,
    "toc".toList <+: known.1.toList ∨ sharedLetters known.1.toList "tocar".toList < 2 ∨
      (dotAbove ∉ known.1.toList ∧ 8 < known.1.toList.length ∧
        ∃ stem ∈ commandStems, stem.1.toList <:+: known.1.toList) := by
  decide +kernel

theorem known_not_overlooked {t : Token} {fix : String}
    (h : knownMalformed.lookup (String.ofList t.lowered) = some fix) : ¬ Overlooked t := by
  intro hover
  have hmem : (String.ofList t.lowered, fix) ∈ knownMalformed := by
    obtain ⟨before, after, hsplit, -⟩ := List.lookup_eq_some_iff.mp h
    rw [hsplit]
    exact List.mem_append_right before List.mem_cons_self
  have hword := known_words _ hmem
  have hlist : (String.ofList t.lowered).toList = t.lowered := String.toList_ofList
  rw [hlist] at hword
  rcases hword with hstart | hletters | ⟨hdot, hlength, stem, hstem, hinfix⟩
  · exact hover.start hstart
  · exact absurd hover.letters (by omega)
  · have hlong := lower_text_length hdot
    rcases hover.stems with hshort | hstems
    · rw [lowered] at hlength
      omega
    · exact hstems stem hstem hinfix

theorem check_identifier_nil {tokens : List Token} {i : Nat} (t : Token)
    (hend : followedBySemicolon tokens i) (hin : inMelody tokens i) :
    checkIdentifier tokens i t = [] ↔ Overlooked t := by
  rw [checkIdentifier]
  cases hknown : knownMalformed.lookup (String.ofList t.lowered) with
  | some fix => simp [known_not_overlooked hknown]
  | none =>
    have hstem := stem_none_iff t
    dsimp only
    split
    · rename_i stem hfound
      rw [hfound] at hstem
      rw [if_pos hin]
      simp only [List.cons_ne_nil, false_iff]
      intro h
      exact Option.some_ne_none stem (hstem.mpr h.stems)
    · rename_i hnone
      rw [hend, hin, Bool.and_self, if_pos rfl, stray_identifier_nil]
      constructor
      · rintro ⟨hlong, hletters, hstart⟩
        exact ⟨hlong, hletters, hstart, hstem.mp hnone⟩
      · intro h
        exact ⟨h.long, h.letters, h.start⟩

/-- A word in the place of a command is reported exactly if it is none of those that are
overlooked. So a program that is accepted has no other words there. -/
theorem stray_reported_iff {tokens : List Token} {i : Nat} {t : Token}
    (ht : tokens[i]? = some t) (hkind : t.kind = .identifier)
    (hend : followedBySemicolon tokens i) (hin : inMelody tokens i) :
    (checkIdentifier tokens i t ≠ [] ↔ ¬ Overlooked t) ∧ (check tokens = [] → Overlooked t) := by
  have hnil := check_identifier_nil t hend hin
  refine ⟨not_congr hnil, fun h => hnil.mp ?_⟩
  exact ((check_nil tokens).mp h).unsuspected i t ht hkind

def hatText : List Char := "tempo = 90; melodia m \x7b cartola; \x7d".toList

def hat : Token := ⟨.identifier, "cartola".toList, 1, 25⟩

def hatTokens : List Token :=
  [⟨.keyword, "tempo".toList, 1, 1⟩, ⟨.symbol, "=".toList, 1, 7⟩, ⟨.number, "90".toList, 1, 9⟩,
   ⟨.symbol, ";".toList, 1, 11⟩, ⟨.keyword, "melodia".toList, 1, 13⟩,
   ⟨.identifier, "m".toList, 1, 21⟩, ⟨.symbol, "\x7b".toList, 1, 23⟩, hat,
   ⟨.symbol, ";".toList, 1, 32⟩, ⟨.symbol, "\x7d".toList, 1, 34⟩]

/-- The word is overlooked, and the program with it is accepted. -/
theorem hat_overlooked :
    scan hatText = .ok hatTokens ∧ hatTokens[7]? = some hat ∧ hat.kind = .identifier ∧
      followedBySemicolon hatTokens 7 ∧ inMelody hatTokens 7 ∧ check hatTokens = [] ∧
      Overlooked hat ∧ checkIdentifier hatTokens 7 hat = [] := by
  have hscan : (scan hatText).toOption = some hatTokens := by decide +kernel
  have hend : followedBySemicolon hatTokens 7 := by decide +kernel
  have hin : inMelody hatTokens 7 := by decide +kernel
  have hcheck : check hatTokens = [] := by decide +kernel
  obtain ⟨hreported, hover⟩ := @stray_reported_iff hatTokens 7 hat rfl rfl hend hin
  refine ⟨Act.ok_of_option hscan, rfl, rfl, hend, hin, hcheck, hover hcheck, ?_⟩
  exact Classical.byContradiction fun h => hreported.mp h (hover hcheck)

end Melody.Token
