import Melody.Token.Kind

/-!
# Facts about character classes

Blanks are no word characters, and the letters of the alphabet are lowered one by one. Beyond
ASCII two characters alone are lowered to something that starts with a letter of the alphabet.
-/

set_option autoImplicit false

namespace Melody.Text

/-- What holds of the characters of a text is decided along the text, not over all characters. -/
instance decidableChars (P : Char → Prop) [DecidablePred P] (cs : List Char) :
    Decidable (∀ c ∈ cs, P c) :=
  List.decidableBAll P cs

theorem ascii_cases {P : Char → Prop} (h : ∀ n < 128, P (Char.ofNat n)) (c : Char)
    (hc : c.toNat < 128) : P c := by
  have := h c.toNat hc
  rwa [Char.ofNat_toNat] at this

def blankCodes : List Nat :=
  [9, 10, 11, 12, 13, 28, 29, 30, 31, 32, 133, 160, 5760, 8192, 8193, 8194, 8195, 8196, 8197, 8198,
   8199, 8200, 8201, 8202, 8232, 8233, 8239, 8287, 12288]

theorem code_of_blank {c : Char} (h : isBlank c) : c.toNat ∈ blankCodes := by
  simp only [isBlank, Bool.or_eq_true, Bool.and_eq_true, decide_eq_true_eq, beq_iff_eq] at h
  simp only [blankCodes, List.mem_cons, List.not_mem_nil, or_false]
  omega

theorem blank_not_word {c : Char} (h : isBlank c) : isWordChar c = false := by
  have hall : ∀ n ∈ blankCodes, isWordChar (Char.ofNat n) = false := by decide +kernel
  have := hall c.toNat (code_of_blank h)
  rwa [Char.ofNat_toNat] at this

theorem word_not_blank {c : Char} (h : isWordChar c) : isBlank c = false := by
  cases hb : isBlank c with
  | false => rfl
  | true => rw [blank_not_word hb] at h; contradiction

theorem lower_after_ascii (before cs : List Char) (h : ∀ c ∈ cs, c.toNat < 128) :
    lowerAfter before cs = cs.map Char.toLower := by
  induction cs generalizing before with
  | nil => rfl
  | cons c cs ih =>
    have hc := h c (by simp)
    have hs : c ≠ 'Σ' := by
      rintro rfl
      exact absurd hc (by decide)
    rw [lowerAfter, if_neg hs, lowerChar, if_pos hc, ih _ fun d hd => h d (by simp [hd])]
    rfl

theorem lower_ascii (cs : List Char) (h : ∀ c ∈ cs, c.toNat < 128) :
    lowerText cs = cs.map Char.toLower :=
  lower_after_ascii [] cs h

/-- No run of the lower case table leads into ASCII, apart from the one of the kelvin sign. -/
theorem lower_runs_beyond {n k : Nat} (h : Table.lowerRuns.findSome? (·.image? n) = some k) :
    128 ≤ k ∨ k = 'k'.toNat := by
  obtain ⟨r, hr, hk⟩ := List.exists_of_findSome?_eq_some h
  have hall : ∀ r ∈ Table.lowerRuns,
      (128 : Int) ≤ r.first + r.shift ∨ (r.last = r.first ∧ r.first + r.shift = 107) := by
    decide +kernel
  simp only [Table.CaseRun.image?, Option.ite_none_right_eq_some, Bool.and_eq_true,
    decide_eq_true_eq, beq_iff_eq, Option.some.injEq] at hk
  obtain ⟨⟨⟨hfirst, hlast⟩, -⟩, rfl⟩ := hk
  have hk : 'k'.toNat = 107 := rfl
  rcases hall r hr with h | ⟨h, h'⟩ <;> omega

theorem code_of_ofNat {k : Nat} {c : Char} (h : Char.ofNat k = c) (hc : 0 < c.toNat) :
    k = c.toNat := by
  by_cases hv : k.isValidChar
  · rw [Char.ofNat, dif_pos hv] at h
    rw [← h]
    rfl
  · rw [Char.ofNat, dif_neg hv] at h
    subst h
    exact absurd hc (by decide)

theorem small_letter_range {c : Char} (h : Token.isSmallLetter c) :
    97 ≤ c.toNat ∧ c.toNat ≤ 122 := by
  simp only [Token.isSmallLetter, Bool.and_eq_true, decide_eq_true_eq, Char.le_def,
    UInt32.le_iff_toNat_le] at h
  exact h

/-- The dotted capital i is the only letter that grows when it is made small. -/
theorem lower_growing {n : Nat} {image : List Nat} (h : Table.lowerGrowing.lookup n = some image) :
    image = [105, 775] := by
  simp only [Table.lowerGrowing, List.lookup_cons] at h
  split at h
  · exact (Option.some.inj h).symm
  · contradiction

def dotAbove : Char := Char.ofNat 775

theorem lower_char_length {c : Char} (h : dotAbove ∉ lowerChar c) : (lowerChar c).length = 1 := by
  rw [lowerChar, changeCase] at h ⊢
  by_cases hc : c.toNat < 128
  · rw [if_pos hc]
    rfl
  · rw [if_neg hc] at h ⊢
    cases himage : Table.lowerGrowing.lookup c.toNat with
    | some image =>
      rw [himage, lower_growing himage] at h
      have hdot : dotAbove ∈ [105, 775].map Char.ofNat := by decide
      exact absurd hdot h
    | none =>
      dsimp only
      split <;> rfl

theorem lower_after_length {before cs : List Char} (h : dotAbove ∉ lowerAfter before cs) :
    (lowerAfter before cs).length = cs.length := by
  induction cs generalizing before with
  | nil => rfl
  | cons c cs ih =>
    rw [lowerAfter, List.mem_append, not_or] at h
    rw [lowerAfter, List.length_append, ih h.2, List.length_cons]
    by_cases hc : c = 'Σ'
    · rw [if_pos hc, List.length_singleton, Nat.add_comm]
    · rw [if_neg hc] at h ⊢
      rw [lower_char_length h.1, Nat.add_comm]

/-- Made small, a text keeps its length if no dot is left over. -/
theorem lower_text_length {cs : List Char} (h : dotAbove ∉ lowerText cs) :
    (lowerText cs).length = cs.length :=
  lower_after_length h

/-- A text whose small form starts with a letter of the alphabet starts with that letter itself,
unless the letter is `k` or `i`. -/
theorem ascii_of_lower {c h : Char} {cs rest : List Char} (hl : lowerText (c :: cs) = h :: rest)
    (hh : Token.isSmallLetter h) (hk : h ≠ 'k') (hi : h ≠ 'i') :
    c.toNat < 128 ∧ c.toLower = h := by
  have hrange := small_letter_range hh
  by_cases hc : c.toNat < 128
  · have hs : c ≠ 'Σ' := by
      rintro rfl
      exact absurd hc (by decide)
    rw [lowerText, lowerAfter, if_neg hs, lowerChar, if_pos hc] at hl
    exact ⟨hc, (List.cons.inj hl).1⟩
  · exfalso
    rw [lowerText, lowerAfter] at hl
    split at hl
    · have hσ := (List.cons.inj hl).1
      unfold lowerSigma at hσ
      split at hσ <;> subst hσ <;> exact absurd hrange (by decide)
    · rw [lowerChar, if_neg hc, changeCase] at hl
      split at hl
      · rename_i image himage
        rw [lower_growing himage] at hl
        exact hi (List.cons.inj hl).1.symm
      · split at hl
        · rename_i k himage
          have hcode := code_of_ofNat (List.cons.inj hl).1 (by omega)
          rcases lower_runs_beyond himage with hbeyond | hkelvin
          · omega
          · exact hk (Char.toNat_inj.mp (hcode.symm.trans hkelvin))
        · have := (List.cons.inj hl).1
          subst this
          omega

end Melody.Text
