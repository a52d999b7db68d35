import Mathlib.Data.Nat.Find
import Mathlib.Tactic.MkIffOfInductiveProp
import Melody.Proofs.Acceptance
import Melody.Proofs.Actions

/-!
# Tokens inside a melody

Whether a token stands in a melody is found out by walking back from it to the brace of the
innermost block that is open there, and by looking for the keyword among the four tokens in front
of that brace. So the answer is about the innermost block only. A block inside a melody counts as
a melody only if it opens with one of the first two tokens of it, because the keyword is near
enough then. The first token of a program is never looked at, so a melody that opens the program
is not seen at all. And the brace that closes a melody counts as a token inside.
-/

set_option autoImplicit false

namespace Melody.Token

section Places

variable (tokens : List Token)

def KeywordAt (k : Nat) : Prop :=
  tokens[k]?.any (·.isKeyword "melodia")

def OpensAt (k : Nat) : Prop :=
  tokens[k]?.any (·.isText '{')

def ClosesAt (k : Nat) : Prop :=
  tokens[k]?.any (·.isText '}')

@[mk_iff]
structure Innermost (b i : Nat) : Prop where
  opens : OpensAt tokens b
  before : b < i
  balanced : Balanced '{' '}' ((tokens.take i).drop (b + 1))

@[mk_iff]
structure Matches (b e : Nat) : Prop where
  innermost : Innermost tokens b e
  closes : ClosesAt tokens e

def InsideMelody (i : Nat) : Prop :=
  ∃ k e, KeywordAt tokens k ∧ Matches tokens (k + 2) e ∧ k + 2 < i ∧ i < e

structure Around (k e i : Nat) : Prop where
  keyword : KeywordAt tokens k
  closes : Matches tokens (k + 2) e
  behind : k + 2 < i
  upto : i ≤ e

def Detected (i : Nat) : Prop :=
  ∃ b k, Innermost tokens b i ∧ KeywordAt tokens k ∧ 0 < k ∧ k < b ∧ b ≤ k + 4

/-- Braces are balanced, and a melody stands outside of all blocks and starts with the keyword, a
name and a brace. Right behind an empty melody no block opens, as the next definition has a head. -/
@[mk_iff]
structure Arranged : Prop where
  balanced : Balanced '{' '}' tokens
  heads : ∀ k < tokens.length, KeywordAt tokens k → ¬ OpensAt tokens (k + 1) ∧
    OpensAt tokens (k + 2)
  outside : ∀ k < tokens.length, KeywordAt tokens k → Balanced '{' '}' (tokens.take k)
  apart : ∀ k < tokens.length, KeywordAt tokens k → ClosesAt tokens (k + 3) →
    ¬ OpensAt tokens (k + 4)

/-- Beginnings longer than the list are the list. -/
theorem balanced_iff_bounded (opening closing : Char) :
    Balanced opening closing tokens ↔
      (∀ n < tokens.length + 1, (tokens.take n).countP (·.isText closing) ≤
        (tokens.take n).countP (·.isText opening)) ∧
      tokens.countP (·.isText closing) = tokens.countP (·.isText opening) := by
  constructor
  · rintro ⟨hstart, htotal⟩
    exact ⟨fun n _ => by simpa using hstart n, by simpa using htotal⟩
  · rintro ⟨hstart, htotal⟩
    refine ⟨fun n => ?_, by simpa using htotal⟩
    by_cases hn : n < tokens.length + 1
    · simpa using hstart n hn
    · rw [List.take_of_length_le (by omega)]
      omega

instance (opening closing : Char) : Decidable (Balanced opening closing tokens) :=
  decidable_of_iff' _ (balanced_iff_bounded tokens opening closing)

instance (k : Nat) : Decidable (KeywordAt tokens k) :=
  inferInstanceAs (Decidable (_ = true))

instance (k : Nat) : Decidable (OpensAt tokens k) :=
  inferInstanceAs (Decidable (_ = true))

instance (k : Nat) : Decidable (ClosesAt tokens k) :=
  inferInstanceAs (Decidable (_ = true))

instance (b i : Nat) : Decidable (Innermost tokens b i) :=
  decidable_of_iff' _ (innermost_iff tokens b i)

instance (b e : Nat) : Decidable (Matches tokens b e) :=
  decidable_of_iff' _ (matches_iff tokens b e)

instance : Decidable (Arranged tokens) :=
  decidable_of_iff' _ (arranged_iff tokens)

end Places

def FindsMelody (closed : Nat) (before : List Token) : Prop :=
  ∃ inner t rest, before = inner ++ t :: rest ∧ t.isText '{' ∧
    BalancedAfter '}' '{' closed inner ∧ opensMelody rest

section Search

variable {t : Token} {before : List Token} {closed : Nat}

theorem finds_stop (ht : t.isText '{') : FindsMelody 0 (t :: before) ↔ opensMelody before := by
  constructor
  · rintro ⟨inner, u, rest, heq, -, hinner, hrest⟩
    cases inner with
    | nil =>
      obtain ⟨-, rfl⟩ := List.cons.inj heq
      exact hrest
    | cons v inner =>
      obtain ⟨rfl, -⟩ := List.cons.inj heq
      exact absurd hinner (not_balanced_close ht (by decide))
  · intro h
    exact ⟨[], t, before, rfl, ht, balanced_nil.mpr rfl, h⟩

theorem finds_step {next : Nat} (hgo : ¬ (t.isText '{' ∧ closed = 0))
    (hnext : ∀ inner, BalancedAfter '}' '{' closed (t :: inner) ↔
      BalancedAfter '}' '{' next inner) :
    FindsMelody closed (t :: before) ↔ FindsMelody next before := by
  constructor
  · rintro ⟨inner, u, rest, heq, hu, hinner, hrest⟩
    cases inner with
    | nil =>
      obtain ⟨rfl, -⟩ := List.cons.inj heq
      exact absurd ⟨hu, balanced_nil.mp hinner⟩ hgo
    | cons v inner =>
      obtain ⟨rfl, hbefore⟩ := List.cons.inj heq
      exact ⟨inner, u, rest, hbefore, hu, (hnext inner).mp hinner, hrest⟩
  · rintro ⟨inner, u, rest, rfl, hu, hinner, hrest⟩
    exact ⟨t :: inner, u, rest, rfl, hu, (hnext inner).mpr hinner, hrest⟩

theorem in_melody_after_iff : inMelodyAfter closed before ↔ FindsMelody closed before := by
  fun_induction inMelodyAfter closed before with
  | case1 => simp [FindsMelody]
  | case2 closed t before hclose ih =>
    have hopen := text_unique hclose (show '}' ≠ '{' by decide)
    rw [ih, finds_step (by simp [hopen]) fun inner => balanced_open hclose (by decide)]
  | case3 t before hclose hopen => rw [finds_stop hopen]
  | case4 t before hclose hopen closed ih =>
    rw [ih, finds_step (by simp) fun inner => balanced_close hopen (by decide)]
  | case5 closed t before hclose hopen ih =>
    rw [ih, finds_step (by simp [hopen]) fun inner =>
      balanced_other (by simpa using hclose) (by simpa using hopen)]

end Search

/-- Read from the other end, opening and closing change places. -/
theorem balanced_reverse {opening closing : Char} {tokens : List Token}
    (h : Balanced closing opening tokens) : Balanced opening closing tokens.reverse := by
  have htotal := h.total
  constructor
  · intro n
    -- what a beginning of the reversed list holds is what an end of the list holds
    have hstart := h.beginnings (tokens.length - n)
    have hcut (p : Token → Bool) : tokens.countP p =
        (tokens.take (tokens.length - n)).countP p +
          (tokens.drop (tokens.length - n)).countP p := by
      rw [← List.countP_append, List.take_append_drop]
    rw [hcut, hcut] at htotal
    rw [List.take_reverse, List.countP_reverse, List.countP_reverse]
    omega
  · rw [List.countP_reverse, List.countP_reverse]
    omega

section Walk

variable {tokens : List Token} {b i : Nat}

theorem take_split {t : Token} (ht : tokens[b]? = some t) (hb : b < i) :
    tokens.take i = tokens.take b ++ t :: (tokens.take i).drop (b + 1) := by
  have hget : (tokens.take i)[b]? = some t := by rw [List.getElem?_take_of_lt hb, ht]
  obtain ⟨hlt, hget⟩ := List.getElem?_eq_some_iff.mp hget
  have htake : tokens.take b = (tokens.take i).take b := by
    rw [List.take_take, Nat.min_eq_left (Nat.le_of_lt hb)]
  rw [← hget, ← List.drop_eq_getElem_cons hlt, htake, List.take_append_drop]

theorem in_melody_iff_opens :
    inMelody tokens i ↔ ∃ b, Innermost tokens b i ∧ opensMelody (tokens.take b).reverse := by
  rw [inMelody, in_melody_after_iff]
  constructor
  · rintro ⟨inner, t, rest, heq, ht, hinner, hrest⟩
    have hsplit : tokens.take i = rest.reverse ++ t :: inner.reverse := by
      simpa using congrArg List.reverse heq
    have hlen : rest.length < i ∧ rest.length < tokens.length := by
      have h := congrArg List.length hsplit
      simp at h
      omega
    have hget : tokens[rest.length]? = some t := by
      rw [← List.getElem?_take_of_lt hlen.1, hsplit]
      simp
    -- the two ways to cut at the brace are the same
    obtain ⟨hfront, hback⟩ := List.append_inj (hsplit.symm.trans (take_split hget hlen.1))
      (by simp; omega)
    refine ⟨rest.length, ⟨?_, hlen.1, ?_⟩, ?_⟩
    · exact (Option.any_eq_true _ _).mpr ⟨t, hget, ht⟩
    · rw [← (List.cons.inj hback).2]
      exact balanced_reverse hinner
    · rwa [← hfront, List.reverse_reverse]
  · rintro ⟨b, ⟨hopens, hb, hbal⟩, hmelody⟩
    obtain ⟨t, hget, ht⟩ := (Option.any_eq_true _ _).mp hopens
    refine ⟨((tokens.take i).drop (b + 1)).reverse, t, (tokens.take b).reverse, ?_, ht,
      balanced_reverse hbal, hmelody⟩
    conv_lhs => rw [take_split hget hb]
    simp

/-- The tokens that are looked at, the nearest to the brace first. -/
theorem nearest_get (hb : b ≤ tokens.length) (j : Nat) :
    ((tokens.take b).reverse.dropLast.take 4)[j]? =
      if j < 4 ∧ j + 1 < b then tokens[b - 1 - j]? else none := by
  have hlen : (tokens.take b).length = b := List.length_take_of_le hb
  rw [List.getElem?_take, List.getElem?_dropLast, List.length_reverse, hlen, ite_and]
  congr 1
  by_cases hj : j + 1 < b
  · rw [if_pos (by omega), if_pos hj, List.getElem?_reverse (by omega), hlen,
      List.getElem?_take_of_lt (by omega)]
  · rw [if_neg (by omega), if_neg hj]

theorem opens_melody_iff (hb : b ≤ tokens.length) :
    opensMelody (tokens.take b).reverse ↔
      ∃ k, KeywordAt tokens k ∧ 0 < k ∧ k < b ∧ b ≤ k + 4 := by
  simp only [opensMelody, List.any_eq_true, List.mem_iff_getElem?, nearest_get hb]
  constructor
  · rintro ⟨t, ⟨j, hj⟩, ht⟩
    split_ifs at hj with hnear
    exact ⟨b - 1 - j, (Option.any_eq_true _ _).mpr ⟨t, hj, ht⟩, by omega, by omega, by omega⟩
  · rintro ⟨k, hk, hpos, hlt, hnear⟩
    obtain ⟨t, hget, ht⟩ := (Option.any_eq_true _ _).mp hk
    refine ⟨t, ⟨b - 1 - k, ?_⟩, ht⟩
    rw [if_pos (by omega), show b - 1 - (b - 1 - k) = k by omega, hget]

theorem lt_of_any {k : Nat} {p : Token → Bool} (h : tokens[k]?.any p) : k < tokens.length := by
  obtain ⟨t, hget, -⟩ := (Option.any_eq_true _ _).mp h
  exact (List.getElem?_eq_some_iff.mp hget).1

theorem in_melody_iff : inMelody tokens i ↔ Detected tokens i := by
  rw [in_melody_iff_opens]
  constructor
  · rintro ⟨b, hb, hopens⟩
    obtain ⟨k, hk⟩ := (opens_melody_iff (Nat.le_of_lt (lt_of_any hb.opens))).mp hopens
    exact ⟨b, k, hb, hk⟩
  · rintro ⟨b, k, hb, hk⟩
    exact ⟨b, hb, (opens_melody_iff (Nat.le_of_lt (lt_of_any hb.opens))).mpr ⟨k, hk⟩⟩

end Walk

def level (tokens : List Token) (n : Nat) : Int :=
  (tokens.take n).countP (·.isText '{') - (tokens.take n).countP (·.isText '}')

section Levels

variable {tokens : List Token} {a b e i k : Nat}

theorem count_succ (p : Token → Bool) (n : Nat) :
    (tokens.take (n + 1)).countP p =
      (tokens.take n).countP p + if tokens[n]?.any p then 1 else 0 := by
  rw [List.take_add_one, List.countP_append]
  cases tokens[n]? <;> simp [List.countP_singleton]

theorem not_closes (h : OpensAt tokens k) : ¬ ClosesAt tokens k := by
  obtain ⟨t, hget, ht⟩ := (Option.any_eq_true _ _).mp h
  simp [ClosesAt, hget, text_unique ht (show '{' ≠ '}' by decide)]

theorem level_opens (h : OpensAt tokens k) : level tokens (k + 1) = level tokens k + 1 := by
  have hcloses := not_closes h
  rw [OpensAt] at h
  rw [ClosesAt] at hcloses
  rw [level, level, count_succ, count_succ, if_pos h, if_neg hcloses]
  omega

theorem level_closes (h : ClosesAt tokens k) : level tokens (k + 1) = level tokens k - 1 := by
  have hopens : ¬ OpensAt tokens k := fun ho => not_closes ho h
  rw [OpensAt] at hopens
  rw [ClosesAt] at h
  rw [level, level, count_succ, count_succ, if_neg hopens, if_pos h]
  omega

theorem level_le_succ (h : ¬ ClosesAt tokens k) : level tokens k ≤ level tokens (k + 1) := by
  rw [ClosesAt] at h
  rw [level, level, count_succ, count_succ, if_neg h]
  omega

theorem count_between (tokens : List Token) (p : Token → Bool) (h : a ≤ i) :
    (tokens.take i).countP p = (tokens.take a).countP p + ((tokens.take i).drop a).countP p := by
  have htake : tokens.take a = (tokens.take i).take a := by
    rw [List.take_take, Nat.min_eq_left h]
  rw [htake, ← List.countP_append, List.take_append_drop]

/-- What stands between two places is balanced if both are on one level and nothing between them is
below it. -/
theorem balanced_between_iff (h : a ≤ i) :
    Balanced '{' '}' ((tokens.take i).drop a) ↔
      level tokens i = level tokens a ∧
        ∀ n, a ≤ n → n ≤ i → level tokens a ≤ level tokens n := by
  have hcut (m : Nat) :
      ((tokens.take i).drop a).take m = (tokens.take (min (a + m) i)).drop a := by
    rw [List.take_drop, List.take_take]
  have hopen := count_between tokens (·.isText '{') h
  have hclose := count_between tokens (·.isText '}') h
  simp only [level]
  constructor
  · rintro ⟨hstart, htotal⟩
    refine ⟨by omega, fun n han hni => ?_⟩
    have hn := hstart (n - a)
    rw [hcut, show min (a + (n - a)) i = n by omega] at hn
    have hopen := count_between tokens (·.isText '{') han
    have hclose := count_between tokens (·.isText '}') han
    omega
  · rintro ⟨hend, hleast⟩
    refine ⟨fun m => ?_, by omega⟩
    have han : a ≤ min (a + m) i := by omega
    have hn := hleast _ han (by omega)
    have hopen := count_between tokens (·.isText '{') han
    have hclose := count_between tokens (·.isText '}') han
    rw [hcut]
    omega

theorem innermost_iff_level : Innermost tokens b i ↔
    OpensAt tokens b ∧ b < i ∧ level tokens i = level tokens b + 1 ∧
      ∀ n, b < n → n ≤ i → level tokens b < level tokens n := by
  constructor
  · rintro ⟨hopens, hlt, hbal⟩
    obtain ⟨hend, hleast⟩ := (balanced_between_iff hlt).mp hbal
    rw [level_opens hopens] at hend hleast
    exact ⟨hopens, hlt, hend, fun n hbn hni => by have := hleast n hbn hni; omega⟩
  · rintro ⟨hopens, hlt, hend, hleast⟩
    refine ⟨hopens, hlt, (balanced_between_iff hlt).mpr ?_⟩
    rw [level_opens hopens]
    exact ⟨hend, fun n hbn hni => by have := hleast n hbn hni; omega⟩

/-- In a balanced program every block is closed. The place is the first one behind which no more
blocks are open than in front of the block. -/
theorem exists_matches (hbal : Balanced '{' '}' tokens) (ha : OpensAt tokens a) :
    ∃ e, Matches tokens a e := by
  have hlen := lt_of_any ha
  have hends : ∃ n, a < n ∧ level tokens n ≤ level tokens a := by
    refine ⟨tokens.length, hlen, ?_⟩
    have htotal := hbal.total
    have hstart := hbal.beginnings a
    rw [level, level, List.take_length]
    omega
  obtain ⟨hlt, hle⟩ := Nat.find_spec hends
  have hleast (n : Nat) (han : a < n) (hn : n < Nat.find hends) :
      level tokens a < level tokens n := by
    have h := Nat.find_min hends hn
    omega
  obtain ⟨e, he⟩ : ∃ e, Nat.find hends = e + 1 := ⟨Nat.find hends - 1, by omega⟩
  rw [he] at hlt hle hleast
  have hopens := level_opens ha
  have hae : a < e := by
    rcases Nat.lt_or_eq_of_le (Nat.le_of_lt_succ hlt) with h | rfl
    · exact h
    · omega
  have habove := hleast e hae (Nat.lt_succ_self e)
  have hcloses : ClosesAt tokens e := by
    by_contra h
    have := level_le_succ h
    omega
  have hdown := level_closes hcloses
  refine ⟨e, innermost_iff_level.mpr ⟨ha, hae, by omega, fun n han hne => ?_⟩, hcloses⟩
  exact hleast n han (Nat.lt_succ_of_le hne)

section Nesting

variable (ha : Matches tokens a e)
include ha

/-- A block that opens within another one is not open behind it. -/
theorem innermost_within (hi : Innermost tokens b i) (hab : a ≤ b) (hbe : b < e) : i ≤ e := by
  by_contra hlt
  obtain ⟨-, -, hend, habove⟩ := innermost_iff_level.mp ha.innermost
  obtain ⟨-, -, -, hopen⟩ := innermost_iff_level.mp hi
  -- behind its closing brace the outer block is on the level in front of it
  have hout := level_closes ha.closes
  have hin := hopen (e + 1) (by omega) (by omega)
  rcases Nat.lt_or_eq_of_le hab with h | rfl
  · have := habove b h (Nat.le_of_lt hbe)
    omega
  · omega

/-- Inside a block, the innermost block is this one or one within it. -/
theorem le_innermost (hi : Innermost tokens b i) (hai : a < i) (hie : i ≤ e) : a ≤ b := by
  by_contra hlt
  obtain ⟨-, -, -, habove⟩ := innermost_iff_level.mp ha.innermost
  obtain ⟨-, -, hend, hopen⟩ := innermost_iff_level.mp hi
  have hin := habove i hai hie
  have hstart := hopen a (by omega) (by omega)
  omega

theorem matches_unique {e' : Nat} (h : Matches tokens a e') : e = e' :=
  Nat.le_antisymm
    (innermost_within h ha.innermost (Nat.le_refl a) h.innermost.before)
    (innermost_within ha h.innermost (Nat.le_refl a) ha.innermost.before)

end Nesting

theorem keyword_not_opens (h : KeywordAt tokens k) : ¬ OpensAt tokens k := by
  intro ho
  obtain ⟨t, hget, ht⟩ := (Option.any_eq_true _ _).mp ho
  obtain ⟨u, hget', hu⟩ := (Option.any_eq_true _ _).mp h
  obtain rfl : t = u := Option.some.inj (hget.symm.trans hget')
  simp only [isText, beq_iff_eq] at ht
  simp only [isKeyword, lowered, ht, Bool.and_eq_true] at hu
  exact absurd hu.2 (by decide)

theorem level_keyword (h : Arranged tokens) (hk : KeywordAt tokens k) : level tokens k = 0 := by
  have htotal := (h.outside k (lt_of_any hk) hk).total
  rw [level]
  omega

/-- A melody does not start within another one. -/
theorem Around.not_within {k' : Nat} (h : Arranged tokens) (hm : Around tokens k e i)
    (hk : KeywordAt tokens k') (hlt : k < k') : ¬ k' < i := by
  intro hki
  obtain ⟨hopens, -, -, habove⟩ := innermost_iff_level.mp hm.closes.innermost
  have hname : k' ≠ k + 1 := by
    rintro rfl
    exact (h.heads _ (lt_of_any hk) hk).1 hopens
  have hbrace : k' ≠ k + 2 := by
    rintro rfl
    exact keyword_not_opens hk hopens
  have hie := hm.upto
  have hin := habove k' (by omega) (by omega)
  have hstart := h.balanced.beginnings (k + 2)
  rw [level_keyword h hk, level] at hin
  omega

theorem Around.unique {k' e' : Nat} (h : Arranged tokens) (hm : Around tokens k e i)
    (hm' : Around tokens k' e' i) : k = k' ∧ e = e' := by
  have hk : k = k' := by
    have hki := hm.behind
    have hki' := hm'.behind
    rcases Nat.lt_trichotomy k k' with hlt | heq | hgt
    · exact absurd (by omega) (hm.not_within h hm'.keyword hlt)
    · exact heq
    · exact absurd (by omega) (hm'.not_within h hm.keyword hgt)
  subst hk
  exact ⟨rfl, matches_unique hm.closes hm'.closes⟩

theorem inside_iff : InsideMelody tokens i ↔ ∃ k e, Around tokens k e i ∧ i < e := by
  constructor
  · rintro ⟨k, e, hk, hmatch, hki, hie⟩
    exact ⟨k, e, ⟨hk, hmatch, hki, Nat.le_of_lt hie⟩, hie⟩
  · rintro ⟨k, e, hm, hie⟩
    exact ⟨k, e, hm.keyword, hm.closes, hm.behind, hie⟩

/-- A place counts as inside a melody exactly if one is around it, is not the first thing of the
program, and has as the innermost block itself or one that opens with its first two tokens. -/
theorem detected_iff (h : Arranged tokens) : Detected tokens i ↔
    ∃ k e b, Around tokens k e i ∧ 0 < k ∧ Innermost tokens b i ∧ b ≤ k + 4 := by
  constructor
  · rintro ⟨b, k, hb, hk, hpos, hkb, hnear⟩
    have hbi := hb.before
    obtain ⟨hname, hopens⟩ := h.heads k (lt_of_any hk) hk
    obtain ⟨e, he⟩ := exists_matches h.balanced hopens
    have hne : b ≠ k + 1 := by
      rintro rfl
      exact hname hb.opens
    have hbe : b < e := by
      have hlt := he.innermost.before
      have hbrace : e ≠ b := by
        rintro rfl
        exact not_closes hb.opens he.closes
      have hempty : ¬ (e = k + 3 ∧ b = k + 4) := by
        rintro ⟨rfl, rfl⟩
        exact h.apart k (lt_of_any hk) hk he.closes hb.opens
      omega
    exact ⟨k, e, b, ⟨hk, he, by omega, innermost_within he hb (by omega) hbe⟩, hpos, hb, hnear⟩
  · rintro ⟨k, e, b, hm, hpos, hb, hnear⟩
    have hle := le_innermost hm.closes hb hm.behind hm.upto
    exact ⟨b, k, hb, hm.keyword, hpos, by omega, hnear⟩

end Levels

/-- A place counts as inside a melody exactly if the keyword is near enough to the innermost block
that is open there. In a program of definitions this is right exactly if, whatever melody is
around the place, strictly inside it the melody does not open the program and the innermost block
is the melody or opens with one of its first two tokens, and at its closing brace the melody does
open the program. -/
theorem melody_context_right_iff (tokens : List Token) (i : Nat) :
    (inMelody tokens i ↔ Detected tokens i) ∧
      (Arranged tokens → ((inMelody tokens i ↔ InsideMelody tokens i) ↔
        ∀ k e, Around tokens k e i →
          (i < e → 0 < k ∧ ∃ b, Innermost tokens b i ∧ b ≤ k + 4) ∧ (i = e → k = 0))) := by
  refine ⟨in_melody_iff, fun harr => ?_⟩
  rw [in_melody_iff, detected_iff harr, inside_iff]
  constructor
  · intro h k e hm
    constructor
    · intro hie
      obtain ⟨k', e', b, hm', hpos, hb, hnear⟩ := h.mpr ⟨k, e, hm, hie⟩
      obtain ⟨rfl, -⟩ := hm.unique harr hm'
      exact ⟨hpos, b, hb, hnear⟩
    · rintro rfl
      by_contra hpos
      obtain ⟨k', e', hm', hie⟩ := h.mp
        ⟨k, i, k + 2, hm, Nat.pos_of_ne_zero hpos, hm.closes.innermost, by omega⟩
      obtain ⟨-, rfl⟩ := hm.unique harr hm'
      exact Nat.lt_irrefl _ hie
  · intro h
    constructor
    · rintro ⟨k, e, b, hm, hpos, -, -⟩
      have hne : i ≠ e := fun heq => Nat.ne_of_gt hpos ((h k e hm).2 heq)
      exact ⟨k, e, hm, Nat.lt_of_le_of_ne hm.upto hne⟩
    · rintro ⟨k, e, hm, hie⟩
      obtain ⟨hpos, b, hb, hnear⟩ := (h k e hm).1 hie
      exact ⟨k, e, b, hm, hpos, hb, hnear⟩

def songText : List Char :=
  "melodia m \x7b banana; \x7d melodia n \x7b repetir 2 vezes \x7b banana; \x7d \x7d".toList

def song : List Token :=
  [⟨.keyword, "melodia".toList, 1, 1⟩, ⟨.identifier, "m".toList, 1, 9⟩,
   ⟨.symbol, "\x7b".toList, 1, 11⟩, ⟨.identifier, "banana".toList, 1, 13⟩,
   ⟨.symbol, ";".toList, 1, 19⟩, ⟨.symbol, "\x7d".toList, 1, 21⟩,
   ⟨.keyword, "melodia".toList, 1, 23⟩, ⟨.identifier, "n".toList, 1, 31⟩,
   ⟨.symbol, "\x7b".toList, 1, 33⟩, ⟨.keyword, "repetir".toList, 1, 35⟩,
   ⟨.number, "2".toList, 1, 43⟩, ⟨.keyword, "vezes".toList, 1, 45⟩,
   ⟨.symbol, "\x7b".toList, 1, 51⟩, ⟨.identifier, "banana".toList, 1, 53⟩,
   ⟨.symbol, ";".toList, 1, 59⟩, ⟨.symbol, "\x7d".toList, 1, 61⟩,
   ⟨.symbol, "\x7d".toList, 1, 63⟩]

/-- In the first melody nothing is detected. In the second one it is right about the first token,
but not about the token in the inner block and the closing brace. -/
theorem song_misjudged :
    scan songText = .ok song ∧ Arranged song ∧
      (InsideMelody song 3 ∧ inMelody song 3 = false) ∧
      (InsideMelody song 9 ∧ inMelody song 9 = true) ∧
      (InsideMelody song 13 ∧ inMelody song 13 = false) ∧
      (¬ InsideMelody song 16 ∧ inMelody song 16 = true) := by
  have hscan : (scan songText).toOption = some song := by decide +kernel
  have harr : Arranged song := by decide +kernel
  have hfirst : KeywordAt song 0 ∧ Matches song 2 5 := by decide +kernel
  have hsecond : KeywordAt song 6 ∧ Matches song 8 16 := by decide +kernel
  have hblock : Matches song 12 15 ∧ Innermost song 8 9 := by decide +kernel
  have hright (i : Nat) := (melody_context_right_iff song i).2 harr
  have haround (i : Nat) (hlow : 8 < i) (hhigh : i ≤ 16) : Around song 6 16 i :=
    ⟨hsecond.1, hsecond.2, hlow, hhigh⟩
  have hin (i : Nat) (hlow : 8 < i) (hhigh : i < 16) : InsideMelody song i :=
    ⟨6, 16, hsecond.1, hsecond.2, hlow, hhigh⟩
  have hhead : InsideMelody song 3 := ⟨0, 5, hfirst.1, hfirst.2, by decide, by decide⟩
  refine ⟨Act.ok_of_option hscan, harr, ⟨hhead, ?_⟩, ⟨hin 9 (by decide) (by decide), ?_⟩,
    ⟨hin 13 (by decide) (by decide), ?_⟩, ?_⟩
  · by_contra h
    have hall := (hright 3).mp (iff_of_true (by simpa using h) hhead)
    exact absurd ((hall 0 5 ⟨hfirst.1, hfirst.2, by decide, by decide⟩).1 (by decide)).1 (by decide)
  · refine ((hright 9).mpr fun k e hm => ?_).mpr (hin 9 (by decide) (by decide))
    obtain ⟨rfl, rfl⟩ := (haround 9 (by decide) (by decide)).unique harr hm
    exact ⟨fun _ => ⟨by decide, 8, hblock.2, by decide⟩, by decide⟩
  · by_contra h
    have hall := (hright 13).mp (iff_of_true (by simpa using h) (hin 13 (by decide) (by decide)))
    obtain ⟨-, b, hb, hnear⟩ := (hall 6 16 (haround 13 (by decide) (by decide))).1 (by decide)
    have hle := le_innermost hblock.1 hb (by decide) (by decide)
    omega
  · have hout : ¬ InsideMelody song 16 := by
      intro h
      obtain ⟨k, e, hm, hlt⟩ := inside_iff.mp h
      obtain ⟨-, rfl⟩ := (haround 16 (by decide) (by decide)).unique harr hm
      exact Nat.lt_irrefl _ hlt
    refine ⟨hout, ?_⟩
    by_contra h
    have hall := (hright 16).mp (iff_of_false h hout)
    exact absurd ((hall 6 16 (haround 16 (by decide) (by decide))).2 rfl) (by decide)

end Melody.Token
