import Mathlib.Data.List.TakeWhile
import Mathlib.Tactic.Common
import Melody.Proofs.Lines
import Melody.Theory.Untyped
import Melody.Token.Scan

/-!
# Playing what the token check takes for a note

What is classified as a note is a name, perhaps an accidental and perhaps an octave; within one
lexeme the accidental is no sharp. The line that plays it takes the whole lexeme for the name of
the note. So a note sounds exactly when it has no flat, and a duration lasts exactly when the
table of durations has it, which lacks two of the accepted names.
-/

set_option autoImplicit false

namespace Melody.Token

open Melody.Text

structure Spells (small name sign octave : List Char) : Prop where
  whole : small = name ++ sign ++ octave
  name : isNoteName name
  sign : sign = [] ∨ sign = ['#'] ∨ sign = ['b']
  octave : octave = [] ∨ ∃ n, octave? octave = .ok (some n)

theorem octave_fits {base : List Char} {octave : Option Int} (h : octaveFits base octave) :
    isNoteName base ∧ ∃ n, octave = some n := by
  unfold octaveFits at h
  cases octave with
  | none => contradiction
  | some n =>
    simp only [Bool.and_eq_true] at h
    exact ⟨h.1, n, rfl⟩

/-- The octave behind a name fits only if both can be read. -/
theorem read_octave {base rest : List Char}
    (h : (octave? rest >>= fun n => pure (octaveFits base n)) = .ok true) :
    isNoteName base ∧ ∃ n, octave? rest = .ok (some n) := by
  obtain ⟨v, ho, hv⟩ := bind_ok h
  obtain ⟨hname, n, rfl⟩ := octave_fits (Except.ok.inj hv)
  exact ⟨hname, n, ho⟩

theorem spells_with_octave {small : List Char} (h : isNoteWithOctave small = .ok true) :
    ∃ name sign octave, Spells small name sign octave := by
  unfold isNoteWithOctave at h
  dsimp only at h
  split at h
  · exact nomatch h
  · obtain ⟨hname, ho⟩ := read_octave h
    exact ⟨_, [], _, by simp, hname, .inl rfl, .inr ho⟩

theorem spells_with_both {small : List Char} (h : isNoteWithBoth small = .ok true) :
    ∃ name sign octave, Spells small name sign octave := by
  have hsmall : small = small.takeWhile isSmallLetter ++ small.dropWhile isSmallLetter := by simp
  unfold isNoteWithBoth at h
  dsimp only at h
  split at h
  · rename_i rest hrest
    split at h
    · exact nomatch h
    · obtain ⟨hname, ho⟩ := read_octave h
      refine ⟨_, ['#'], rest, ?_, hname, .inr (.inl rfl), .inr ho⟩
      rw [hrest] at hsmall
      rw [List.append_assoc]
      exact hsmall
  · split at h
    · rename_i hflat
      simp only [Bool.and_eq_true, decide_eq_true_eq] at hflat
      obtain ⟨base, hbase⟩ := List.getLast?_eq_some_iff.mp hflat.1
      obtain ⟨hname, ho⟩ := read_octave h
      refine ⟨_, ['b'], _, ?_, hname, .inr (.inr rfl), .inr ho⟩
      rw [hbase, List.dropLast_concat, ← hbase]
      exact hsmall
    · exact nomatch h

theorem lower_after_last (before cs : List Char) {c : Char} (hc : lowerChar c = [c])
    (hs : c ≠ 'Σ') : ∃ small, lowerAfter before (cs ++ [c]) = small ++ [c] := by
  induction cs generalizing before with
  | nil => exact ⟨[], by simp [lowerAfter, hs, hc]⟩
  | cons d cs ih =>
    obtain ⟨small, h⟩ := ih (d :: before)
    rw [List.cons_append, lowerAfter, h, ← List.append_assoc]
    exact ⟨_, rfl⟩

theorem spells_with_sign {cs : List Char} {c : Char} (hc : lowerChar c = [c]) (hs : c ≠ 'Σ')
    (hlast : cs.getLast? = some c) : lowerText cs = (lowerText cs).dropLast ++ [c] := by
  obtain ⟨base, rfl⟩ := List.getLast?_eq_some_iff.mp hlast
  obtain ⟨small, hsmall⟩ := lower_after_last [] base hc hs
  rw [lowerText, hsmall, List.dropLast_concat]

theorem spells_note {cs : List Char} (h : isNote cs = .ok true) :
    ∃ name sign octave, Spells (lowerText cs) name sign octave := by
  unfold isNote at h
  dsimp only at h
  split at h
  · rename_i hname
    exact ⟨_, [], [], by simp, hname, .inl rfl, .inl rfl⟩
  split at h
  · rename_i hsign
    simp only [Bool.and_eq_true, Bool.or_eq_true, decide_eq_true_eq] at hsign
    obtain ⟨⟨-, hbase⟩, hlast⟩ := hsign
    rcases hlast with hl | hl
    · refine ⟨_, ['#'], [], ?_, hbase, .inr (.inl rfl), .inl rfl⟩
      rw [List.append_nil]
      exact spells_with_sign rfl (by decide) hl
    · refine ⟨_, ['b'], [], ?_, hbase, .inr (.inr rfl), .inl rfl⟩
      rw [List.append_nil]
      exact spells_with_sign rfl (by decide) hl
  · obtain ⟨v, ho, hv⟩ := bind_ok h
    split at hv
    · rename_i htrue
      exact spells_with_octave (htrue ▸ ho)
    · exact spells_with_both hv

theorem classify_words {cs : List Char} {k : Kind} (h : classify cs = .ok k)
    (hk : k = .note ∨ k = .duration) :
    ∃ b, isNote cs = .ok b ∧ (if b then Except.ok Kind.note
      else if durationNames.contains (String.ofList (lowerText cs)) then .ok .duration
      else if instrumentNames.contains (String.ofList (lowerText cs)) then .ok .instrument
      else if isIdentifier cs then .ok .identifier
      else .ok .unknown) = (.ok k : Except Fault Kind) := by
  unfold classify at h
  dsimp only at h
  split at h
  · cases h; simp at hk
  split at h
  · cases h; simp at hk
  split at h
  · cases h; simp at hk
  split at h
  · cases h; simp at hk
  · exact bind_ok h

theorem note_of_classify {cs : List Char} (h : classify cs = .ok .note) :
    isNote cs = .ok true := by
  obtain ⟨b, hb, hk⟩ := classify_words h (.inl rfl)
  cases b with
  | true => exact hb
  | false =>
    simp only [Bool.false_eq_true, if_false] at hk
    split_ifs at hk <;> exact nomatch hk

theorem duration_of_classify {cs : List Char} (h : classify cs = .ok .duration) :
    durationNames.contains (String.ofList (lowerText cs)) := by
  obtain ⟨b, -, hk⟩ := classify_words h (.inr rfl)
  by_contra hd
  rw [if_neg hd] at hk
  split_ifs at hk <;> exact nomatch hk

def startsPlain (cs : List Char) : Bool :=
  cs.head?.any fun c => isSmallLetter c && c != 'k' && c != 'i'

theorem starts_plain_append {cs : List Char} (h : startsPlain cs) (rest : List Char) :
    startsPlain (cs ++ rest) := by
  cases cs with
  | nil => contradiction
  | cons c cs => exact h

theorem starts_plain_name {name : List Char} (h : isNoteName name) : startsPlain name := by
  have hall : ∀ s ∈ noteNames, startsPlain s.toList := by decide
  have := hall (String.ofList name) (by simpa [isNoteName] using h)
  rwa [String.toList_ofList] at this

theorem starts_plain_duration {name : List Char}
    (h : durationNames.contains (String.ofList name)) : startsPlain name := by
  have hall : ∀ s ∈ durationNames, startsPlain s.toList := by decide
  have := hall (String.ofList name) (by simpa using h)
  rwa [String.toList_ofList] at this

theorem identifier_start {cs : List Char} (h : startsPlain (lowerText cs)) :
    ∃ c rest, cs = c :: rest ∧ startsIdentifier c := by
  cases cs with
  | nil => contradiction
  | cons c rest =>
    cases hl : lowerText (c :: rest) with
    | nil => rw [hl] at h; contradiction
    | cons l small =>
      rw [hl] at h
      simp only [startsPlain, List.head?_cons, Option.any_some, Bool.and_eq_true, bne_iff_ne] at h
      obtain ⟨hc, rfl⟩ := ascii_of_lower hl h.1.1 h.1.2 h.2
      have hstart := ascii_cases
        (P := fun c => isSmallLetter c.toLower → startsIdentifier c)
        (by decide +kernel) c hc h.1.1
      exact ⟨c, rest, rfl, hstart⟩

theorem ascii_of_continues {c : Char} (h : continuesIdentifier c) : c.toNat < 128 := by
  change ((decide (c.val ≥ 'A'.val ∧ c.val ≤ 'Z'.val) || c.val ≥ 'a'.val && c.val ≤ 'z'.val) ||
    c.val ≥ '0'.val && c.val ≤ '9'.val || c == '_') = true at h
  simp only [Bool.or_eq_true, Bool.and_eq_true, decide_eq_true_eq, beq_iff_eq, ge_iff_le,
    UInt32.le_iff_toNat_le] at h
  rcases h with h | rfl
  · have hc : c.toNat = c.val.toNat := rfl
    have hZ : 'Z'.val.toNat = 90 := rfl
    have hz : 'z'.val.toNat = 122 := rfl
    have h9 : '9'.val.toNat = 57 := rfl
    omega
  · decide

theorem word_of_continues {c : Char} (h : continuesIdentifier c) : isWordChar c := by
  simp only [isWordChar, Bool.or_eq_true]
  simp only [continuesIdentifier, Bool.or_eq_true] at h
  exact .inl h

theorem continues_lower {c : Char} (h : continuesIdentifier c) :
    continuesIdentifier c.toLower :=
  ascii_cases (P := fun c => continuesIdentifier c → continuesIdentifier c.toLower)
    (by decide +kernel) c (ascii_of_continues h) h

def IsLexeme (word : List Char) : Prop :=
  ∃ line start column, (column, word) ∈ lexemes line start

theorem lexeme_shape {line word : List Char} {start column : Nat}
    (h : (column, word) ∈ lexemes line start) :
    ∃ (c : Char) (rest : List Char), word = c :: rest.take (lexemeTail c rest) := by
  fun_induction lexemes line start with
  | case1 start => contradiction
  | case2 c cs start hblank ih => exact ih h
  | case3 c cs start hblank n ih =>
    rcases List.mem_cons.mp h with h | h
    · exact ⟨_, _, (Prod.mk.inj h).2⟩
    · exact ih h

/-- A lexeme that starts with a letter is a run of identifier characters. -/
theorem identifier_of_lexeme {word : List Char} (hw : IsLexeme word)
    (h : startsPlain (lowerText word)) : ∀ c ∈ word, continuesIdentifier c := by
  obtain ⟨line, start, column, hmem⟩ := hw
  obtain ⟨c, rest, rfl⟩ := lexeme_shape hmem
  obtain ⟨c', rest', hsame, hstart⟩ := identifier_start h
  obtain ⟨rfl, -⟩ := List.cons.inj hsame
  have htail : rest.take (lexemeTail c rest) = rest.takeWhile continuesIdentifier := by
    rw [lexemeTail, if_pos hstart]
    exact (List.prefix_iff_eq_take.mp (List.takeWhile_prefix _)).symm
  intro d hd
  rw [htail] at hd
  rcases List.mem_cons.mp hd with rfl | hd
  · simp only [startsIdentifier, Bool.or_eq_true] at hstart
    simp only [continuesIdentifier, Char.isAlphanum, Bool.or_eq_true]
    tauto
  · exact List.mem_takeWhile_imp hd

theorem word_of_identifier {cs : List Char} (h : ∀ c ∈ cs, continuesIdentifier c)
    (hs : startsPlain (lowerText cs)) : IsWord cs := by
  obtain ⟨c, rest, rfl, -⟩ := identifier_start hs
  exact ⟨by simp, fun d hd => word_of_continues (h d hd)⟩

theorem lower_of_identifier {cs : List Char} (h : ∀ c ∈ cs, continuesIdentifier c) :
    ∀ c ∈ lowerText cs, continuesIdentifier c := by
  rw [lower_ascii cs fun c hc => ascii_of_continues (h c hc)]
  intro c hc
  obtain ⟨d, hd, rfl⟩ := List.mem_map.mp hc
  exact continues_lower (h d hd)

theorem small_not_digit {c : Char} (h : isSmallLetter c) : isDigit c = false :=
  ascii_cases (P := fun c => isSmallLetter c → isDigit c = false) (by decide +kernel) c
    (by have := small_letter_range h; omega) h

theorem small_not_decimal {c : Char} (h : isDecimal c) : isSmallLetter c = false := by
  cases hs : isSmallLetter c with
  | false => rfl
  | true =>
    have := small_not_digit hs
    simp [isDigit, h] at this

theorem name_letters {name : List Char} (h : isNoteName name) : ∀ c ∈ name, isSmallLetter c := by
  have hall : ∀ s ∈ noteNames, ∀ c ∈ s.toList, isSmallLetter c := by decide
  have := hall (String.ofList name) (by simpa [isNoteName] using h)
  rwa [String.toList_ofList] at this

theorem flat_not_name {name : List Char} (h : isNoteName name) :
    isNoteName (name ++ ['b']) = false := by
  have hall : ∀ s ∈ noteNames, isNoteName (s.toList ++ ['b']) = false := by decide
  have := hall (String.ofList name) (by simpa [isNoteName] using h)
  rwa [String.toList_ofList] at this

/-- An octave within an identifier is a run of digits that can be read. -/
theorem digits_of_octave {octave : List Char} {n : Int} (h : octave? octave = .ok (some n))
    (hid : ∀ c ∈ octave, continuesIdentifier c) :
    octave ≠ [] ∧ (∀ c ∈ octave, isDecimal c) ∧ parseInt octave = .ok n := by
  unfold octave? at h
  dsimp only at h
  split at h
  · rename_i hread
    simp only [Bool.and_eq_true, Bool.not_eq_true', isEnd, Bool.or_eq_true, beq_iff_eq] at hread
    obtain ⟨hne, hend⟩ := hread
    have hdrop : octave.dropWhile isDecimal = [] := by
      rcases hend with h | h
      · exact h
      · have hmem : '\n' ∈ octave := by
          rw [← List.takeWhile_append_dropWhile (p := isDecimal) (l := octave), h]
          simp
        exact absurd (hid _ hmem) (by decide)
    have hall := List.dropWhile_eq_nil_iff.mp hdrop
    have htake := List.takeWhile_eq_self_iff.mpr hall
    rw [htake] at h hne
    refine ⟨List.isEmpty_eq_false_iff.mp hne, hall, ?_⟩
    cases hp : parseInt octave with
    | error f => rw [hp] at h; exact nomatch h
    | ok v =>
      rw [hp] at h
      have : some v = some n := Except.ok.inj h
      rw [Option.some.inj this]
  · exact nomatch h

structure SpellsLexeme (small name sign digits : List Char) : Prop where
  whole : small = name ++ sign ++ digits
  named : isNoteName name
  flat : sign = [] ∨ sign = ['b']
  decimal : ∀ c ∈ digits, isDecimal c
  readable : digits = [] ∨ ∃ n, parseInt digits = .ok n

theorem spells_lexeme {small name sign octave : List Char} (h : Spells small name sign octave)
    (hid : ∀ c ∈ small, continuesIdentifier c) : SpellsLexeme small name sign octave := by
  obtain ⟨rfl, hname, hsign, hoctave⟩ := h
  have hoid : ∀ c ∈ octave, continuesIdentifier c := fun c hc => hid c (by simp [hc])
  refine ⟨rfl, hname, ?_, ?_, ?_⟩
  · rcases hsign with rfl | rfl | rfl
    · exact .inl rfl
    · exact absurd (hid '#' (by simp)) (by decide)
    · exact .inr rfl
  · rcases hoctave with rfl | ⟨n, hn⟩
    · simp
    · exact (digits_of_octave hn hoid).2.1
  · rcases hoctave with rfl | ⟨n, hn⟩
    · exact .inl rfl
    · exact .inr ⟨n, (digits_of_octave hn hoid).2.2⟩

theorem letters_of_lexeme {small name sign digits : List Char}
    (h : SpellsLexeme small name sign digits) : ∀ c ∈ name ++ sign, isSmallLetter c := by
  intro c hc
  rcases List.mem_append.mp hc with hc | hc
  · exact name_letters h.named c hc
  · rcases h.flat with rfl | rfl
    · contradiction
    · rw [List.mem_singleton.mp hc]
      decide

/-- The digits of a lexeme are its octave, and what is left is the name with its flat. -/
theorem parts_of_lexeme {small name sign digits : List Char}
    (h : SpellsLexeme small name sign digits) :
    small.filter isDigit = digits ∧ (small.filter fun c => !isDigit c) = name ++ sign := by
  have hletters : ∀ c ∈ name ++ sign, isDigit c = false := fun c hc =>
    small_not_digit (letters_of_lexeme h c hc)
  have hdigits : ∀ c ∈ digits, isDigit c := fun c hc => by simp [isDigit, h.decimal c hc]
  rw [h.whole]
  constructor
  · rw [List.filter_append, List.filter_eq_self.mpr hdigits,
      List.filter_eq_nil_iff.mpr (by simpa using hletters), List.nil_append]
  · rw [List.filter_append, List.filter_eq_self.mpr (by simpa using hletters),
      List.filter_eq_nil_iff.mpr (by simpa using hdigits), List.append_nil]

def IsFlat (note : List Char) : Prop :=
  ∃ name ∈ noteNames, (lowerText note).takeWhile isSmallLetter = name.toList ++ ['b']

instance (note : List Char) : Decidable (IsFlat note) :=
  inferInstanceAs (Decidable (∃ name ∈ noteNames, _ = _))

theorem flat_iff_sign {note name sign digits : List Char}
    (h : SpellsLexeme (lowerText note) name sign digits) : IsFlat note ↔ sign = ['b'] := by
  have htake : (lowerText note).takeWhile isSmallLetter = name ++ sign := by
    rw [h.whole, List.takeWhile_append_of_pos (letters_of_lexeme h)]
    have hstop : Stops isSmallLetter digits := fun c hc =>
      small_not_decimal (h.decimal c (List.mem_of_mem_head? hc))
    rw [(take_while_stops hstop).1, List.append_nil]
  have hmem : String.ofList name ∈ noteNames := by simpa [isNoteName] using h.named
  constructor
  · rintro ⟨other, hother, hsame⟩
    rcases h.flat with hs | hs
    · have hname : isNoteName other.toList := by simpa [isNoteName] using hother
      have hno := flat_not_name hname
      rw [← hsame, htake, hs, List.append_nil, h.named] at hno
      contradiction
    · exact hs
  · rintro rfl
    exact ⟨String.ofList name, hmem, by rw [htake, String.toList_ofList]⟩

end Melody.Token

namespace Melody.Theory

open Melody.Token

def Proper {α : Type} (r : Except Fault α) : Prop :=
  ∀ f, r = .error f → f.isBadValue = false

theorem proper_ok {α : Type} (a : α) : Proper (Except.ok a : Except Fault α) :=
  fun _ h => nomatch h

theorem proper_error {α : Type} {f : Fault} :
    Proper (Except.error f : Except Fault α) ↔ f.isBadValue = false :=
  ⟨fun h => h f rfl, fun h _ he => Except.error.inj he ▸ h⟩

theorem proper_move (base : Float) (octaves : Int) : Proper (moveOctaves base octaves) := by
  unfold moveOctaves
  split_ifs
  · exact proper_ok _
  · exact proper_error.mpr rfl
  · exact proper_ok _

theorem table_has_names : ∀ s ∈ noteNames, (noteFrequencies.lookup s).isSome := by
  decide

/-- The letters of every name in the table are a note's. -/
theorem table_of_names : ∀ entry ∈ noteFrequencies,
    isNoteName (entry.1.toList.filter fun c => !Text.isDigit c) := by
  decide +kernel

theorem lookup_unnamed {s : String}
    (h : isNoteName (s.toList.filter fun c => !Text.isDigit c) = false) :
    noteFrequencies.lookup s = none := by
  cases hl : noteFrequencies.lookup s with
  | none => rfl
  | some f =>
    obtain ⟨before, after, hsplit, -⟩ := List.lookup_eq_some_iff.mp hl
    have hnamed := table_of_names (s, f) (by rw [hsplit]; simp)
    rw [h] at hnamed
    contradiction

theorem natural_flat {note name digits : List Char}
    (h : SpellsLexeme (Text.lowerText note) name ['b'] digits) :
    naturalFrequency (String.ofList note) = .error (.unknownNote (String.ofList note)) := by
  have hbase := (parts_of_lexeme h).2
  have hno := flat_not_name h.named
  have hwhole : noteFrequencies.lookup (String.ofList (Text.lowerText note)) = none :=
    lookup_unnamed (by rw [String.toList_ofList, hbase, hno])
  have hletters : noteFrequencies.lookup (String.ofList (name ++ ['b'])) = none :=
    lookup_unnamed (by rw [String.toList_ofList, ← hbase, List.filter_filter]; simpa [hbase])
  simp only [naturalFrequency, Text.lower, String.toList_ofList, hwhole, hbase, hletters,
    (parts_of_lexeme h).1]

theorem natural_plain {note name digits : List Char}
    (h : SpellsLexeme (Text.lowerText note) name [] digits) :
    Proper (naturalFrequency (String.ofList note)) := by
  obtain ⟨hdigits, hbase⟩ := parts_of_lexeme h
  rw [List.append_nil] at hbase
  have hmem : String.ofList name ∈ noteNames := by simpa [isNoteName] using h.named
  obtain ⟨f, hf⟩ := Option.isSome_iff_exists.mp (table_has_names _ hmem)
  simp only [naturalFrequency, Text.lower, String.toList_ofList, hbase, hdigits, hf]
  cases hl : noteFrequencies.lookup (String.ofList (Text.lowerText note)) with
  | some g => exact proper_ok g
  | none =>
    rcases h.readable with rfl | ⟨n, hn⟩
    · -- without an octave the lexeme is the name, and the table has it
      have hwhole := h.whole
      rw [List.append_nil, List.append_nil] at hwhole
      rw [hwhole, hf] at hl
      contradiction
    · cases digits with
      | nil => exact nomatch hn
      | cons c cs =>
        simp only [hn]
        exact proper_move f (n - middleOctave)

theorem note_frequency_plain (note : String) :
    noteFrequency (.text note) .none = naturalFrequency note := by
  change (naturalFrequency note >>= pure) = _
  exact bind_pure _

/-- A sounding lexeme has no flat. -/
theorem proper_frequency_iff {note name sign digits : List Char}
    (h : SpellsLexeme (Text.lowerText note) name sign digits) :
    Proper (noteFrequency (.text (String.ofList note)) .none) ↔ ¬ IsFlat note := by
  rw [note_frequency_plain, flat_iff_sign h]
  rcases h.flat with rfl | rfl
  · simpa using natural_plain h
  · rw [natural_flat h, proper_error]
    simp [Fault.isBadValue]

def IsPositive : Value → Prop
  | .int k => 0 < k
  | .float x => 0 < x
  | .bool b => b
  | _ => False

def HasLength (name : List Char) : Prop :=
  String.ofList (Text.lowerText name) ≠ "fusa" ∧
    String.ofList (Text.lowerText name) ≠ "semifusa"

instance (name : List Char) : Decidable (HasLength name) :=
  inferInstanceAs (Decidable (_ ∧ _))

theorem proper_beat (tempo : Value) : Proper (beatSeconds tempo) := by
  unfold beatSeconds
  split
  · split_ifs
    · exact proper_error.mpr rfl
    · exact proper_ok _
  · split
    · dsimp only
      split_ifs
      · exact proper_error.mpr rfl
      · exact proper_error.mpr rfl
      · exact proper_ok _
    · exact proper_error.mpr rfl

/-- The accepted durations without a length are exactly two. -/
theorem length_of_duration : ∀ s ∈ durationNames,
    (durationBeats.lookup s).isSome = true ↔ s ≠ "fusa" ∧ s ≠ "semifusa" := by
  decide

theorem proper_seconds {name : String} {beats : Float}
    (h : durationBeats.lookup (Text.lower name) = some beats) (tempo : Value) :
    Proper (seconds name tempo) := by
  intro f hf
  unfold seconds at hf
  cases hb : beatSeconds tempo with
  | error g =>
    rw [hb] at hf
    exact proper_beat tempo f (hb.trans hf)
  | ok beat =>
    rw [hb, h] at hf
    exact nomatch hf

theorem seconds_unnamed {name : String} (h : durationBeats.lookup (Text.lower name) = none) :
    seconds name (.int 120) = .error (.unknownDuration name) := by
  have hb : beatSeconds (.int 120) = .ok (60.0 / Number.ofInt 120) := rfl
  simp only [seconds, hb, h]
  rfl

/-- An accepted duration can be measured at every tempo unless the table lacks its name. -/
theorem proper_duration_iff {name : List Char}
    (h : durationNames.contains (String.ofList (Text.lowerText name))) :
    (∀ tempo, IsPositive tempo →
      Proper (durationSeconds (.text (String.ofList name)) tempo)) ↔ HasLength name := by
  have htable := length_of_duration _ (by simpa using h)
  have hlower : Text.lower (String.ofList name) = String.ofList (Text.lowerText name) := by
    rw [Text.lower, String.toList_ofList]
  change (∀ tempo, IsPositive tempo → Proper (seconds (String.ofList name) tempo)) ↔ _
  rw [HasLength, ← htable, ← hlower]
  constructor
  · intro hproper
    cases hl : durationBeats.lookup (Text.lower (String.ofList name)) with
    | some beats => rfl
    | none =>
      have := hproper (.int 120) (show (0 : Int) < 120 by decide)
      rw [seconds_unnamed hl, proper_error] at this
      contradiction
  · intro hsome tempo _
    obtain ⟨beats, hbeats⟩ := Option.isSome_iff_exists.mp hsome
    exact proper_seconds hbeats tempo

end Melody.Theory

namespace Melody.Command

open Melody.Text Melody.Token Melody.Theory

theorem no_accidental_of_duration {duration : List Char}
    (h : durationNames.contains (String.ofList (lowerText duration)))
    (hid : ∀ c ∈ duration, continuesIdentifier c) : Line.accidental? duration = none := by
  have hall : ∀ s ∈ durationNames, (s.toList.head?.any Line.isAccidental) = false := by decide
  have hhead := hall _ (by simpa using h)
  rw [String.toList_ofList, lower_ascii _ fun c hc => ascii_of_continues (hid c hc)] at hhead
  cases duration with
  | nil => rfl
  | cons c rest =>
    have hc : Line.isAccidental c = false := by
      cases ha : Line.isAccidental c with
      | false => rfl
      | true =>
        rcases (by simpa [Line.isAccidental] using ha : c = '#' ∨ c = 'b') with rfl | rfl
        · exact hhead
        · exact hhead
    rw [Line.accidental?, if_neg (by simp [hc])]

/-- Playing lexemes that count as a note and a duration meets no bad value exactly if the
note has no flat and the duration has a length. -/
theorem accepted_play_proper_iff (manner : Manner) (ctx : Context) (note duration : List Char)
    (hnote : classify note = .ok .note) (hduration : classify duration = .ok .duration)
    (hlexeme : IsLexeme note) (hlexeme' : IsLexeme duration)
    (hchord : ctx.chords.find? (String.ofList note) = none) :
    ∃ name accidental length,
      readLine manner ctx (playLine note duration) =
        .ofCommand (.play (some name) (some accidental) (some length)) ∧
      ((∀ tempo, IsPositive tempo →
          Proper (noteFrequency name accidental) ∧ Proper (durationSeconds length tempo)) ↔
        ¬ IsFlat note ∧ HasLength duration) := by
  obtain ⟨name, sign, octave, hspells⟩ := spells_note (note_of_classify hnote)
  have hlasting := duration_of_classify hduration
  have hstart : startsPlain (lowerText note) := by
    rw [hspells.whole, List.append_assoc]
    exact starts_plain_append (starts_plain_name hspells.name) _
  have hstart' := starts_plain_duration hlasting
  have hid := identifier_of_lexeme hlexeme hstart
  have hid' := identifier_of_lexeme hlexeme' hstart'
  have hfrequency := proper_frequency_iff (spells_lexeme hspells (lower_of_identifier hid))
  have hlength := proper_duration_iff hlasting
  refine ⟨.text (String.ofList note), .none, .text (String.ofList duration), ?_, ?_⟩
  · exact read_play manner ctx (word_of_identifier hid hstart) (word_of_identifier hid' hstart')
      (no_accidental_of_duration hlasting hid') hchord
  · rw [← hfrequency, ← hlength]
    constructor
    · intro h
      -- the frequency does not depend on the tempo, so one positive tempo will do
      exact ⟨(h (.int 120) (show (0 : Int) < 120 by decide)).1, fun tempo ht => (h tempo ht).2⟩
    · intro h tempo ht
      exact ⟨h.1, h.2 tempo ht⟩

theorem single_lexeme {word : List Char} (h : lexemes word 1 = [(1, word)]) : IsLexeme word :=
  ⟨word, 1, 1, by rw [h]; simp⟩

/-- A natural note sounds, and a flat that is accepted as well does not. -/
theorem third_sounds_flat_second_fails :
    (∃ name accidental length,
      readLine .plain {} (playLine "Mi4".toList "minima".toList) =
        .ofCommand (.play (some name) (some accidental) (some length)) ∧
      ∀ tempo, IsPositive tempo →
        Proper (noteFrequency name accidental) ∧ Proper (durationSeconds length tempo)) ∧
    (∃ name accidental length,
      readLine .plain {} (playLine "reb4".toList "minima".toList) =
        .ofCommand (.play (some name) (some accidental) (some length)) ∧
      ¬ ∀ tempo, IsPositive tempo →
        Proper (noteFrequency name accidental) ∧ Proper (durationSeconds length tempo)) := by
  have hduration : IsLexeme "minima".toList := single_lexeme (by decide +kernel)
  have hlength : HasLength "minima".toList := by decide +kernel
  constructor
  · obtain ⟨name, accidental, length, hread, hiff⟩ :=
      accepted_play_proper_iff .plain {} "Mi4".toList "minima".toList (by rfl) (by rfl)
        (single_lexeme (by decide +kernel)) hduration rfl
    have hnatural : ¬ IsFlat "Mi4".toList := by decide +kernel
    exact ⟨name, accidental, length, hread, hiff.mpr ⟨hnatural, hlength⟩⟩
  · obtain ⟨name, accidental, length, hread, hiff⟩ :=
      accepted_play_proper_iff .plain {} "reb4".toList "minima".toList (by rfl) (by rfl)
        (single_lexeme (by decide +kernel)) hduration rfl
    have hflat : IsFlat "reb4".toList := by decide +kernel
    exact ⟨name, accidental, length, hread, fun h => (hiff.mp h).1 hflat⟩

end Melody.Command
