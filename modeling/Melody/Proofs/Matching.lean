import Mathlib.Data.Nat.Find
import Mathlib.Order.Bounds.Defs
import Melody.Program.Definition

/-!
# Matching braces

The search for the end of a block counts the blocks that are open inside it. What it finds is the
closing brace in front of which all that was opened is closed. So a text whose braces are balanced
has a closing brace for every opening one, and no two blocks end at the same brace. In any text,
balanced or not, this brace is the first place at which one block more is closed than was opened.
-/

set_option autoImplicit false

namespace Melody.Text

structure ClosesAfter (pending : Nat) (cs : List Char) : Prop where
  beginnings : ∀ n, (cs.take n).count '}' ≤ pending + (cs.take n).count '{'
  total : cs.count '}' = pending + cs.count '{'

def BracesBalanced (cs : List Char) : Prop :=
  ClosesAfter 0 cs

section Closes

variable {pending : Nat} {c : Char} {cs : List Char}

theorem closes_nil : ClosesAfter pending [] ↔ pending = 0 := by
  constructor
  · intro h
    simpa using h.total.symm
  · rintro rfl
    exact ⟨by simp, by simp⟩

/-- One character moves the number of open blocks, and the rest closes them from there. -/
theorem closes_step {next : Nat}
    (h : pending + (if c = '{' then 1 else 0) = next + (if c = '}' then 1 else 0)) :
    ClosesAfter pending (c :: cs) ↔ ClosesAfter next cs := by
  have hcount (x : Char) (ds : List Char) :
      (c :: ds).count x = ds.count x + if c = x then 1 else 0 := by
    rw [List.count_cons]
    by_cases hx : c = x <;> simp [hx]
  constructor
  · rintro ⟨hb, ht⟩
    constructor
    · intro n
      have hn := hb (n + 1)
      rw [List.take_succ_cons, hcount, hcount] at hn
      omega
    · rw [hcount, hcount] at ht
      omega
  · rintro ⟨hb, ht⟩
    constructor
    · intro n
      cases n with
      | zero => simp
      | succ n =>
        have hn := hb n
        rw [List.take_succ_cons, hcount, hcount]
        omega
    · rw [hcount, hcount]
      omega

theorem closes_open : ClosesAfter pending ('{' :: cs) ↔ ClosesAfter (pending + 1) cs :=
  closes_step (by simp)

theorem closes_close : ClosesAfter (pending + 1) ('}' :: cs) ↔ ClosesAfter pending cs :=
  closes_step (by simp)

theorem not_closes_close : ¬ ClosesAfter 0 ('}' :: cs) := by
  intro h
  have := h.beginnings 1
  simp at this

theorem closes_other (ho : c ≠ '{') (hc : c ≠ '}') :
    ClosesAfter pending (c :: cs) ↔ ClosesAfter pending cs :=
  closes_step (by simp [ho, hc])

/-- Text without braces neither opens nor closes. -/
theorem closes_braceless {front : List Char} (h : ∀ c ∈ front, c ≠ '{' ∧ c ≠ '}') :
    ClosesAfter pending (front ++ cs) ↔ ClosesAfter pending cs := by
  induction front with
  | nil => rfl
  | cons c front ih =>
    obtain ⟨ho, hc⟩ := h c List.mem_cons_self
    rw [List.cons_append, closes_other ho hc, ih fun d hd => h d (List.mem_cons_of_mem c hd)]

/-- Only the braces of a text count. -/
theorem closes_filter {p : Char → Bool} (ho : p '{' = true) (hc : p '}' = true) :
    ClosesAfter pending (cs.filter p) ↔ ClosesAfter pending cs := by
  induction cs generalizing pending with
  | nil => rfl
  | cons c cs ih =>
    by_cases hopen : c = '{'
    · subst hopen
      rw [List.filter_cons_of_pos ho, closes_open, closes_open, ih]
    by_cases hclose : c = '}'
    · subst hclose
      rw [List.filter_cons_of_pos hc]
      cases pending with
      | zero => exact iff_of_false not_closes_close not_closes_close
      | succ pending => rw [closes_close, closes_close, ih]
    rw [closes_other hopen hclose, ← ih]
    by_cases hp : p c = true
    · rw [List.filter_cons_of_pos hp, closes_other hopen hclose]
    · rw [List.filter_cons_of_neg hp]

/-- Behind any part of a text that closes all its blocks, those that are still open get closed. -/
theorem ClosesAfter.behind {front : List Char} (h : ClosesAfter pending (front ++ cs)) :
    ∃ still, ClosesAfter still cs := by
  refine ⟨pending + front.count '{' - front.count '}', ?_, ?_⟩
  · intro n
    have hfront := h.beginnings front.length
    have hn := h.beginnings (front.length + n)
    rw [List.take_left] at hfront
    rw [List.take_length_add_append, List.count_append, List.count_append] at hn
    omega
  · have hfront := h.beginnings front.length
    have ht := h.total
    rw [List.take_left] at hfront
    rw [List.count_append, List.count_append] at ht
    omega

end Closes

def Surplus (cs : List Char) : Prop :=
  cs.count '}' = cs.count '{' + 1

instance (cs : List Char) : Decidable (Surplus cs) :=
  inferInstanceAs (Decidable (cs.count '}' = cs.count '{' + 1))

section Surplus

variable {cs : List Char} {k : Nat}

/-- One character closes one block at most, so the first beginning that closes more than it opens
closes just one more. -/
theorem beginnings_before_surplus (h : ∀ j < k, ¬ Surplus (cs.take (j + 1))) {n : Nat}
    (hn : n ≤ k) :
    (cs.take n).count '}' ≤ (cs.take n).count '{' := by
  induction n with
  | zero => simp
  | succ n ih =>
    have hbefore := ih (Nat.le_of_succ_le hn)
    have hone : cs[n]?.toList.count '}' ≤ 1 :=
      Nat.le_trans List.count_le_length Option.length_toList_le
    have hnot := h n hn
    rw [Surplus, List.take_add_one, List.count_append, List.count_append] at hnot
    rw [List.take_add_one, List.count_append, List.count_append]
    omega

/-- The first surplus stands at the brace that closes the block around a balanced text. -/
theorem first_surplus_iff :
    (k < cs.length ∧ Surplus (cs.take (k + 1)) ∧ ∀ j < k, ¬ Surplus (cs.take (j + 1))) ↔
      cs[k]? = some '}' ∧ BracesBalanced (cs.take k) := by
  constructor
  · rintro ⟨hlt, hsurplus, hfirst⟩
    have hbefore := beginnings_before_surplus hfirst (Nat.le_refl k)
    have hc : cs[k]? = some cs[k] := List.getElem?_eq_getElem hlt
    rw [Surplus, List.take_add_one, hc, List.count_append, List.count_append, Option.toList_some]
      at hsurplus
    have hbrace : cs[k] = '}' := by
      by_contra hother
      have hnone : [cs[k]].count '}' = 0 := by simp [hother]
      omega
    rw [hbrace] at hc hsurplus
    refine ⟨hc, ?_, ?_⟩
    · intro n
      rw [List.take_take, Nat.zero_add]
      exact beginnings_before_surplus hfirst (Nat.min_le_right n k)
    · simpa using hsurplus
  · rintro ⟨hbrace, hinside⟩
    refine ⟨(List.getElem?_eq_some_iff.mp hbrace).1, ?_, ?_⟩
    · have htotal := hinside.total
      rw [Surplus, List.take_add_one, hbrace, List.count_append, List.count_append, htotal]
      simp
    · intro j hj hearlier
      have hbeginning := hinside.beginnings (j + 1)
      rw [List.take_take, Nat.min_eq_left (show j + 1 ≤ k from hj), hearlier] at hbeginning
      omega

end Surplus

/-- A part of a text around a character in it. -/
theorem slice_around {cs : List Char} {c : Char} {start place stop : Nat}
    (hplace : cs[place]? = some c) (hstart : start ≤ place) (hstop : place < stop) :
    slice cs start stop = slice cs start place ++ c :: slice cs (place + 1) stop := by
  obtain ⟨before, rfl⟩ : ∃ n, place = start + n := ⟨place - start, by omega⟩
  obtain ⟨after, rfl⟩ : ∃ n, stop = start + before + 1 + n :=
    ⟨stop - (start + before + 1), by omega⟩
  have hdrop : cs.drop (start + before) = c :: cs.drop (start + before + 1) := by
    obtain ⟨hlt, hget⟩ := List.getElem?_eq_some_iff.mp hplace
    rw [List.drop_eq_getElem_cons hlt, hget]
  unfold slice
  rw [show start + before + 1 + after - start = before + (after + 1) by omega,
    show start + before - start = before by omega,
    show start + before + 1 + after - (start + before + 1) = after by omega, List.take_add,
    List.drop_drop, hdrop, List.take_succ_cons]

end Melody.Text

namespace Melody.Program

open Melody.Text

section Search

variable {inner : Nat} {cs : List Char} {c : Char}

theorem closing_offset_open :
    closingOffset? inner ('{' :: cs) = (closingOffset? (inner + 1) cs).map (· + 1) := by
  simp [closingOffset?]

theorem closing_offset_end : closingOffset? 0 ('}' :: cs) = some 0 := by
  simp [closingOffset?]

theorem closing_offset_close :
    closingOffset? (inner + 1) ('}' :: cs) = (closingOffset? inner cs).map (· + 1) := by
  simp [closingOffset?]

theorem closing_offset_other (hopen : c ≠ '{') (hclose : c ≠ '}') :
    closingOffset? inner (c :: cs) = (closingOffset? inner cs).map (· + 1) := by
  simp [closingOffset?, hopen, hclose]

end Search

theorem closing_offset_iff {inner k : Nat} {cs : List Char} :
    closingOffset? inner cs = some k ↔ cs[k]? = some '}' ∧ ClosesAfter inner (cs.take k) := by
  induction cs generalizing inner k with
  | nil => simp [closingOffset?]
  | cons c cs ih =>
    -- the search goes on behind a character that is not the one looked for
    have hmore {next : Nat} (hfirst : closingOffset? inner (c :: cs) =
          (closingOffset? next cs).map (· + 1))
        (hstop : ¬ (c = '}' ∧ inner = 0))
        (hnext : ∀ ds, ClosesAfter inner (c :: ds) ↔ ClosesAfter next ds) :
        closingOffset? inner (c :: cs) = some k ↔
          (c :: cs)[k]? = some '}' ∧ ClosesAfter inner ((c :: cs).take k) := by
      rw [hfirst, Option.map_eq_some_iff]
      cases k with
      | zero => simpa [closes_nil] using hstop
      | succ k =>
        rw [List.getElem?_cons_succ, List.take_succ_cons, hnext, ← ih]
        simp
    by_cases hopen : c = '{'
    · subst hopen
      exact hmore closing_offset_open (by simp) fun _ => closes_open
    by_cases hclose : c = '}'
    · subst hclose
      cases inner with
      | zero =>
        cases k with
        | zero => simp [closingOffset?, closes_nil]
        | succ k => simp [closingOffset?, not_closes_close]
      | succ inner =>
        exact hmore closing_offset_close (by simp) fun _ => closes_close
    · exact hmore (closing_offset_other hopen hclose) (by simp [hclose])
        fun _ => closes_other hopen hclose

/-- The end of a block is found if more blocks get closed than are open inside it. -/
theorem closing_offset_found {inner pending : Nat} {cs : List Char} (h : ClosesAfter pending cs)
    (hinner : inner < pending) : ∃ k, closingOffset? inner cs = some k := by
  induction cs generalizing inner pending with
  | nil =>
    rw [closes_nil] at h
    omega
  | cons c cs ih =>
    by_cases hopen : c = '{'
    · subst hopen
      obtain ⟨k, hk⟩ := ih (closes_open.mp h) (Nat.succ_lt_succ hinner)
      exact ⟨k + 1, by rw [closing_offset_open, hk, Option.map_some]⟩
    by_cases hclose : c = '}'
    · subst hclose
      cases inner with
      | zero => exact ⟨0, closing_offset_end⟩
      | succ inner =>
        cases pending with
        | zero => omega
        | succ pending =>
          obtain ⟨k, hk⟩ := ih (closes_close.mp h) (Nat.lt_of_succ_lt_succ hinner)
          exact ⟨k + 1, by rw [closing_offset_close, hk, Option.map_some]⟩
    · obtain ⟨k, hk⟩ := ih ((closes_other hopen hclose).mp h) hinner
      exact ⟨k + 1, by rw [closing_offset_other hopen hclose, hk, Option.map_some]⟩

theorem closing_brace_iff {cs : List Char} {p q : Nat} :
    closingBrace? cs p = some q ↔
      p < q ∧ cs[q]? = some '}' ∧ BracesBalanced (slice cs (p + 1) q) := by
  unfold closingBrace? BracesBalanced slice
  rw [Option.map_eq_some_iff]
  constructor
  · rintro ⟨k, hk, rfl⟩
    obtain ⟨hbrace, hinside⟩ := closing_offset_iff.mp hk
    rw [List.getElem?_drop] at hbrace
    rw [Nat.add_sub_cancel, Nat.add_comm k]
    exact ⟨by omega, hbrace, hinside⟩
  · rintro ⟨hlt, hbrace, hinside⟩
    refine ⟨q - (p + 1), closing_offset_iff.mpr ⟨?_, hinside⟩, by omega⟩
    rw [List.getElem?_drop, Nat.add_sub_cancel' hlt, hbrace]

theorem closing_place_eq (cs : List Char) (p : Nat) :
    closingPlace cs p = .ok (((closingBrace? cs p).map Int.ofNat).getD (-1)) := by
  have hplace : (0 : Int) ≤ (p : Int) + 1 := by omega
  have hfirst : ((p : Int) + 1).toNat = p + 1 := by omega
  unfold closingPlace closingBrace?
  dsimp only
  rw [if_pos hplace, hfirst]
  cases closingOffset? 0 (cs.drop (p + 1)) with
  | none => rfl
  | some k =>
    simp only [Option.map_some, Option.getD_some, Int.ofNat_eq_natCast]
    congr 1
    omega

section Balanced

variable {cs : List Char}

theorem closing_brace_found (h : BracesBalanced cs) {p : Nat} (hp : cs[p]? = some '{') :
    ∃ q, closingBrace? cs p = some q := by
  obtain ⟨hlt, hget⟩ := List.getElem?_eq_some_iff.mp hp
  have hsplit : cs.take p ++ '{' :: cs.drop (p + 1) = cs := by
    rw [← hget, ← List.drop_eq_getElem_cons hlt, List.take_append_drop]
  rw [BracesBalanced, ← hsplit] at h
  obtain ⟨still, hstill⟩ := h.behind
  obtain ⟨k, hk⟩ := closing_offset_found (closes_open.mp hstill) (Nat.zero_lt_succ still)
  exact ⟨k + (p + 1), by rw [closingBrace?, hk, Option.map_some]⟩

/-- A block that starts later, inside another one, ends at another brace. -/
theorem closing_brace_ne {p p' q : Nat} (hlt : p < p') (hp' : cs[p']? = some '{')
    (h : closingBrace? cs p = some q) : closingBrace? cs p' ≠ some q := by
  intro h'
  obtain ⟨-, -, houter⟩ := closing_brace_iff.mp h
  obtain ⟨hq, -, hinner⟩ := closing_brace_iff.mp h'
  rw [slice_around hp' hlt hq] at houter
  have hfront := houter.beginnings (slice cs (p + 1) p').length
  have htotal := houter.total
  have hinside := hinner.total
  rw [List.take_left] at hfront
  rw [List.count_append, List.count_append] at htotal
  simp at htotal
  omega

theorem closing_brace_injective {p p' q : Nat} (hp : cs[p]? = some '{') (hp' : cs[p']? = some '{')
    (h : closingBrace? cs p = some q) (h' : closingBrace? cs p' = some q) : p = p' := by
  rcases Nat.lt_trichotomy p p' with hlt | heq | hlt
  · exact absurd h' (closing_brace_ne hlt hp' h)
  · exact heq
  · exact absurd h (closing_brace_ne hlt hp h')

end Balanced

def SurplusAt (cs : List Char) (p q : Nat) : Prop :=
  p < q ∧ q < cs.length ∧ Surplus (slice cs (p + 1) (q + 1))

instance (cs : List Char) (p q : Nat) : Decidable (SurplusAt cs p q) :=
  inferInstanceAs (Decidable (p < q ∧ q < cs.length ∧ Surplus (slice cs (p + 1) (q + 1))))

/-- Seen from the text behind `p`. -/
theorem surplus_at_behind {cs : List Char} {p k : Nat} :
    SurplusAt cs p (p + 1 + k) ↔
      k < (cs.drop (p + 1)).length ∧ Surplus ((cs.drop (p + 1)).take (k + 1)) := by
  have hslice : slice cs (p + 1) (p + 1 + k + 1) = (cs.drop (p + 1)).take (k + 1) := by
    rw [slice, Nat.add_assoc (p + 1), Nat.add_sub_cancel_left]
  rw [SurplusAt, hslice, List.length_drop]
  constructor
  · rintro ⟨-, hlt, hsurplus⟩
    exact ⟨by omega, hsurplus⟩
  · rintro ⟨hlt, hsurplus⟩
    exact ⟨by omega, by omega, hsurplus⟩

theorem closing_brace_least {cs : List Char} {p q : Nat} :
    closingBrace? cs p = some q ↔ IsLeast {q | SurplusAt cs p q} q := by
  rw [closing_brace_iff]
  constructor
  · rintro ⟨hlt, hbrace, hinside⟩
    obtain ⟨k, rfl⟩ := Nat.exists_eq_add_of_le hlt
    rw [slice, Nat.succ_eq_add_one, Nat.add_sub_cancel_left] at hinside
    rw [Nat.succ_eq_add_one, ← List.getElem?_drop] at hbrace
    obtain ⟨hk, hsurplus, hfirst⟩ := first_surplus_iff.mpr ⟨hbrace, hinside⟩
    refine ⟨surplus_at_behind.mpr ⟨hk, hsurplus⟩, ?_⟩
    intro r hr
    obtain ⟨j, rfl⟩ := Nat.exists_eq_add_of_le (show p + 1 ≤ r from hr.1)
    by_contra hbefore
    exact hfirst j (by omega) (surplus_at_behind.mp hr).2
  · rintro ⟨hq, hleast⟩
    obtain ⟨k, rfl⟩ := Nat.exists_eq_add_of_le (show p + 1 ≤ q from hq.1)
    obtain ⟨hk, hsurplus⟩ := surplus_at_behind.mp hq
    have hfirst : ∀ j < k, ¬ Surplus ((cs.drop (p + 1)).take (j + 1)) := by
      intro j hj hearlier
      have hle : p + 1 + k ≤ p + 1 + j :=
        hleast (surplus_at_behind.mpr ⟨Nat.lt_trans hj hk, hearlier⟩)
      omega
    obtain ⟨hbrace, hinside⟩ := first_surplus_iff.mp ⟨hk, hsurplus, hfirst⟩
    rw [List.getElem?_drop] at hbrace
    rw [slice, Nat.add_sub_cancel_left]
    exact ⟨hq.1, hbrace, hinside⟩

theorem closing_brace_none {cs : List Char} {p : Nat} :
    closingBrace? cs p = none ↔ ∀ q, ¬ SurplusAt cs p q := by
  constructor
  · intro hnone q hq
    have hfound : ∃ q, SurplusAt cs p q := ⟨q, hq⟩
    have hleast := closing_brace_least.mpr
      ⟨Nat.find_spec hfound, fun r hr => Nat.find_min' hfound hr⟩
    rw [hnone] at hleast
    contradiction
  · intro hnone
    cases hplace : closingBrace? cs p with
    | none => rfl
    | some q => exact absurd (closing_brace_least.mp hplace).1 (hnone q)

/-- In every text and from every place, also from one behind the end, the search answers, and
never with a fault. The answer is a place exactly if this is the least one behind the start up to
which one closing brace more has been passed than opening ones; it is then a closing brace, and
the text in between is balanced. The answer is `-1` exactly if there is no such place. -/
theorem closing_place_least (cs : List Char) (p : Nat) :
    ∃ answer : Int, closingPlace cs p = .ok answer ∧
      (∀ q : Nat, answer = q ↔ IsLeast {q | SurplusAt cs p q} q) ∧
      (∀ q : Nat, answer = q → cs[q]? = some '}' ∧ BracesBalanced (slice cs (p + 1) q)) ∧
      (answer = -1 ↔ ∀ q, ¬ SurplusAt cs p q) := by
  refine ⟨_, closing_place_eq cs p, ?_⟩
  have hanswer (q : Nat) :
      ((closingBrace? cs p).map Int.ofNat).getD (-1) = q ↔ closingBrace? cs p = some q := by
    cases closingBrace? cs p with
    | none => simp
    | some r =>
      exact ⟨fun h => congrArg some (Int.ofNat.inj h),
        fun h => congrArg Int.ofNat (Option.some.inj h)⟩
  refine ⟨?_, ?_, ?_⟩
  · intro q
    rw [hanswer, closing_brace_least]
  · intro q hq
    exact (closing_brace_iff.mp ((hanswer q).mp hq)).2
  · rw [← closing_brace_none]
    cases closingBrace? cs p with
    | none => simp
    | some r => simp

end Melody.Program
