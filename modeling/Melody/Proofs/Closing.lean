import Melody.Proofs.Layout
import Melody.Proofs.Lexemes
import Melody.Proofs.Matching

/-!
# Blocks of accepted programs

The check balances tokens, the search for the end of a block counts characters. Both see the same
braces: the tokens of a text are its characters without the blanks, and a token of a known kind that
has a brace in it is that brace. So every block of an accepted program ends.
-/

set_option autoImplicit false

namespace Melody.Token

open Melody.Text
open Melody.Command (Braceless braceless_append braceless_cons)

theorem braceless_class {p : Char → Bool} (ho : p '{' = false) (hc : p '}' = false)
    {cs : List Char} (h : ∀ c ∈ cs, p c) : Braceless cs := by
  intro c hmem
  have hp := h c hmem
  constructor
  · rintro rfl
    simp [ho] at hp
  · rintro rfl
    simp [hc] at hp

theorem braceless_run {p : Char → Bool} (ho : p '{' = false) (hc : p '}' = false)
    {cs : List Char} (h : isEnd (cs.dropWhile p)) : Braceless cs := by
  rw [← List.takeWhile_append_dropWhile (p := p) (l := cs)]
  apply braceless_append
  · exact braceless_class ho hc fun c hmem => List.mem_takeWhile_imp hmem
  · simp only [isEnd, Bool.or_eq_true, beq_iff_eq] at h
    rcases h with h | h <;> rw [h] <;> decide

theorem braceless_numeral {cs : List Char} (h : isNumeral cs) : Braceless cs := by
  have hdecimal (ds : List Char) : Braceless (ds.takeWhile isDecimal) :=
    braceless_class (by decide) (by decide) fun c hmem => List.mem_takeWhile_imp hmem
  simp only [isNumeral, Bool.or_eq_true, Bool.and_eq_true] at h
  rcases h with ⟨-, h⟩ | ⟨-, h⟩
  · exact braceless_class (by decide) (by decide) (List.all_eq_true.mp h)
  · split at h
    · rename_i rest hrest
      rw [Bool.and_eq_true] at h
      rw [← List.takeWhile_append_dropWhile (p := isDecimal) (l := cs), hrest]
      exact braceless_append (hdecimal cs)
        (braceless_cons (by decide) (braceless_run (by decide) (by decide) h.2))
    · contradiction

theorem braceless_identifier {cs : List Char} (h : isIdentifier cs) : Braceless cs := by
  cases cs with
  | nil => contradiction
  | cons c cs =>
    simp only [isIdentifier, Bool.and_eq_true] at h
    have hfirst : Braceless [c] :=
      braceless_class (p := startsIdentifier) (by decide) (by decide) (by simpa using h.1)
    exact braceless_append hfirst (braceless_run (by decide) (by decide) h.2)

theorem braceless_octave {cs : List Char} {n : Int} (h : octave? cs = .ok (some n)) :
    Braceless cs := by
  unfold octave? at h
  dsimp only at h
  split at h
  · rename_i hread
    rw [Bool.and_eq_true] at hread
    exact braceless_run (by decide) (by decide) hread.2
  · simp at h

/-- Braces are their own small forms. -/
theorem mem_lower {c : Char} (hc : lowerChar c = [c]) (hs : c ≠ 'Σ') {cs : List Char} (h : c ∈ cs)
    (before : List Char) : c ∈ lowerAfter before cs := by
  induction cs generalizing before with
  | nil => contradiction
  | cons d cs ih =>
    rw [lowerAfter]
    rcases List.mem_cons.mp h with rfl | h
    · rw [if_neg hs, hc]
      simp
    · split
      · exact List.mem_cons_of_mem _ (ih h _)
      · exact List.mem_append_right _ (ih h _)

theorem braceless_of_lower {cs : List Char} (h : Braceless (lowerText cs)) : Braceless cs := by
  intro c hc
  constructor
  · rintro rfl
    exact (h _ (mem_lower (by decide) (by decide) hc [])).1 rfl
  · rintro rfl
    exact (h _ (mem_lower (by decide) (by decide) hc [])).2 rfl

theorem braceless_note {cs : List Char} (h : isNote cs = .ok true) : Braceless cs := by
  obtain ⟨name, sign, octave, hwhole, hname, hsign, hoctave⟩ := spells_note h
  apply braceless_of_lower
  rw [hwhole]
  apply braceless_append
  · apply braceless_append
    · exact braceless_class (by decide) (by decide) (name_letters hname)
    · rcases hsign with rfl | rfl | rfl <;> decide
  · rcases hoctave with rfl | ⟨n, hn⟩
    · exact fun c hc => absurd hc List.not_mem_nil
    · exact braceless_octave hn

theorem braceless_word {cs : List Char} {names : List String}
    (hnames : ∀ s ∈ names, Braceless s.toList)
    (h : names.contains (String.ofList (lowerText cs))) : Braceless cs := by
  have hsmall := hnames _ (List.contains_iff_mem.mp h)
  rw [String.toList_ofList] at hsmall
  exact braceless_of_lower hsmall

/-- A token of a known kind with a brace in it is this brace. -/
theorem known_braces {cs : List Char} {kind : Kind} (h : classify cs = .ok kind)
    (hkind : kind ≠ .unknown) : Braceless cs ∨ cs = ['{'] ∨ cs = ['}'] := by
  unfold classify at h
  dsimp only at h
  split at h
  · rename_i hnumeral
    exact .inl (braceless_numeral hnumeral)
  split at h
  · rename_i hsymbol
    have hall : ∀ s ∈ symbols, Braceless s.toList ∨ s.toList = ['{'] ∨ s.toList = ['}'] := by
      decide
    have hcs := hall _ (List.contains_iff_mem.mp hsymbol)
    rwa [String.toList_ofList] at hcs
  apply Or.inl
  split at h
  · rename_i hoperator
    have hall : ∀ s ∈ operators, Braceless s.toList := by decide
    have hcs := hall _ (List.contains_iff_mem.mp hoperator)
    rwa [String.toList_ofList] at hcs
  split at h
  · rename_i hkeyword
    exact braceless_word (by decide) hkeyword
  obtain ⟨note, hnote, h⟩ := bind_ok h
  cases note with
  | true => exact braceless_note hnote
  | false =>
    rw [if_neg Bool.false_ne_true] at h
    split at h
    · rename_i hduration
      exact braceless_word (by decide) hduration
    split at h
    · rename_i hinstrument
      exact braceless_word (by decide) hinstrument
    split at h
    · rename_i hidentifier
      exact braceless_identifier hidentifier
    · exact absurd (Except.ok.inj h).symm hkind

/-- Braces balanced among the tokens are balanced in the text they make up. -/
theorem closes_of_balanced {tokens : List Token} {pending : Nat}
    (h : BalancedAfter '{' '}' pending tokens)
    (hknown : ∀ t ∈ tokens, Braceless t.text ∨ t.text = ['{'] ∨ t.text = ['}']) :
    ClosesAfter pending (tokens.flatMap (·.text)) := by
  induction tokens generalizing pending with
  | nil =>
    rw [balanced_nil] at h
    exact closes_nil.mpr h
  | cons t tokens ih =>
    have hne : '{' ≠ '}' := by decide
    have hrest : ∀ u ∈ tokens, _ := fun u hu => hknown u (List.mem_cons_of_mem t hu)
    rw [List.flatMap_cons]
    rcases hknown t List.mem_cons_self with ht | ht | ht
    · have hother (c : Char) (hc : c = '{' ∨ c = '}') : t.isText c = false := by
        rw [isText, beq_eq_false_iff_ne]
        intro htext
        have := ht c (by rw [htext]; exact List.mem_singleton_self c)
        rcases hc with rfl | rfl
        · exact this.1 rfl
        · exact this.2 rfl
      rw [balanced_other (hother '{' (.inl rfl)) (hother '}' (.inr rfl))] at h
      exact (closes_braceless ht).mpr (ih h hrest)
    · rw [balanced_open (by simp [isText, ht]) hne] at h
      rw [ht]
      exact closes_open.mpr (ih h hrest)
    · have hclose : t.isText '}' := by simp [isText, ht]
      cases pending with
      | zero => exact absurd h (not_balanced_close hclose hne)
      | succ pending =>
        rw [balanced_close hclose hne] at h
        rw [ht]
        exact closes_close.mpr (ih h hrest)

theorem accepted_balanced {cs : List Char} (h : validate cs = .ok []) :
    BracesBalanced (Source.dropBlockComments .file cs) := by
  obtain ⟨tokens, hscan, hcheck⟩ := bind_ok h
  have haccept := (check_nil tokens).mp (Except.ok.inj hcheck)
  obtain ⟨htext, hkinds⟩ := scan_covers hscan
  have hcloses := closes_of_balanced haccept.braces fun t ht =>
    known_braces (hkinds t ht) (haccept.known t ht)
  rw [htext] at hcloses
  exact (closes_filter (by decide) (by decide)).mp hcloses

end Melody.Token

namespace Melody.Program

open Melody.Text

/-- In a program that the check accepts, without its block comments, the search finds the end of
every block: a closing brace behind the opening one, with balanced braces in between, and no two
blocks share it. -/
theorem accepted_blocks_end (cs : List Char) (h : Token.validate cs = .ok []) :
    let text := Source.dropBlockComments .file cs
    (∀ p : Nat, text[p]? = some '{' → ∃ q : Nat, closingPlace text p = .ok (q : Int) ∧ p < q ∧
        text[q]? = some '}' ∧ BracesBalanced (slice text (p + 1) q)) ∧
      ∀ p p' : Nat, text[p]? = some '{' → text[p']? = some '{' →
        closingPlace text p = closingPlace text p' → p = p' := by
  intro text
  have hbalanced : BracesBalanced text := Token.accepted_balanced h
  have hfound (p : Nat) (hp : text[p]? = some '{') : ∃ q, closingBrace? text p = some q ∧
      closingPlace text p = .ok (q : Int) := by
    obtain ⟨q, hq⟩ := closing_brace_found hbalanced hp
    exact ⟨q, hq, by rw [closing_place_eq, hq]; rfl⟩
  constructor
  · intro p hp
    obtain ⟨q, hq, hplace⟩ := hfound p hp
    exact ⟨q, hplace, closing_brace_iff.mp hq⟩
  · intro p p' hp hp' hsame
    obtain ⟨q, hq, hplace⟩ := hfound p hp
    obtain ⟨q', hq', hplace'⟩ := hfound p' hp'
    rw [hplace, hplace'] at hsame
    obtain rfl : q = q' := Int.ofNat.inj (Except.ok.inj hsame)
    exact closing_brace_injective hp hp' hq hq'

def twoBlocks : List Char :=
  "melodia m \x7b \\_ \x7d _/ repetir 2 vezes \x7b tocar do minima; \x7d \x7d".toList

theorem two_blocks_end :
    Token.validate twoBlocks = .ok [] ∧
      let text := Source.dropBlockComments .file twoBlocks
      text[10]? = some '{' ∧ text[29]? = some '{' ∧
        (∃ q : Nat, closingPlace text 29 = .ok (q : Int) ∧ 29 < q ∧ text[q]? = some '}' ∧
          BracesBalanced (slice text 30 q)) ∧
        closingPlace text 10 ≠ closingPlace text 29 := by
  have haccepted : (Token.validate twoBlocks).toOption = some [] := by decide +kernel
  have h := Act.ok_of_option haccepted
  have houter : (Source.dropBlockComments .file twoBlocks)[10]? = some '{' := by decide +kernel
  have hinner : (Source.dropBlockComments .file twoBlocks)[29]? = some '{' := by decide +kernel
  obtain ⟨hends, hdistinct⟩ := accepted_blocks_end twoBlocks h
  exact ⟨h, houter, hinner, hends 29 hinner,
    fun hsame => absurd (hdistinct 10 29 houter hinner hsame) (by decide)⟩

end Melody.Program
