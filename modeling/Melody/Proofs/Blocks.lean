import Mathlib.Data.List.TakeWhile
import Mathlib.Tactic.SplitIfs
import Melody.Command.Structure

/-!
# What blocks enclose

A recogniser gives back a suffix of the text it was given. A block that is recognised encloses a
stretch of the text in which braces alternate, so a block within it encloses no brace.
-/

set_option autoImplicit false

namespace Melody.Text

theorem drop_text_suffix {w cs rest : List Char} (h : dropText? w cs = some rest) :
    rest <:+ cs :=
  ⟨w, (drop_text_eq h).symm⟩

theorem skip_suffix (cs : List Char) : skipBlanks cs <:+ cs :=
  List.dropWhile_suffix isBlank

theorem blanks_suffix {cs rest : List Char} (h : blanks? cs = some rest) : rest <:+ cs := by
  cases cs with
  | nil => contradiction
  | cons c cs =>
    rw [blanks?] at h
    split_ifs at h
    rw [← Option.some.inj h]
    exact (skip_suffix cs).trans (List.suffix_cons c cs)

theorem run_suffix {p : Char → Bool} {cs w rest : List Char} (h : run? p cs = some (w, rest)) :
    rest <:+ cs := by
  unfold run? at h
  split at h
  · contradiction
  · rw [← (Prod.mk.inj (Option.some.inj h)).2]
    exact List.dropWhile_suffix p

theorem up_to_eq {stop : Char} {cs a b : List Char} (h : upTo? stop cs = some (a, b)) :
    cs = a ++ stop :: b := by
  induction cs generalizing a with
  | nil => contradiction
  | cons c cs ih =>
    rw [upTo?] at h
    split_ifs at h with hc
    · obtain ⟨rfl, rfl⟩ := Prod.mk.inj (Option.some.inj h)
      rw [hc, List.nil_append]
    · obtain ⟨⟨a', b'⟩, hsome, hpair⟩ := Option.map_eq_some_iff.mp h
      obtain ⟨rfl, rfl⟩ := Prod.mk.inj hpair
      rw [ih hsome, List.cons_append]

theorem up_to_suffix {stop : Char} {cs a b : List Char} (h : upTo? stop cs = some (a, b)) :
    b <:+ cs :=
  ⟨a ++ [stop], by rw [up_to_eq h, List.append_assoc, List.singleton_append]⟩

def openAfter? (inner : Bool) (c : Char) : Option Bool :=
  if c = '{' then if inner then none else some true
  else if c = '}' then if inner then some false else none
  else some inner

/-- A block ends with its first character or goes on behind it. -/
theorem block_cons {inner : Bool} {c : Char} {cs a b : List Char}
    (h : block? inner (c :: cs) = some (a, b)) :
    (inner = false ∧ c = '}' ∧ a = [] ∧ b = cs) ∨
      ∃ inner' a', openAfter? inner c = some inner' ∧ a = c :: a' ∧
        block? inner' cs = some (a', b) := by
  have hmore {inner' : Bool} (ho : openAfter? inner c = some inner')
      (h : (block? inner' cs).map (fun found => (c :: found.1, found.2)) = some (a, b)) :
      ∃ inner' a', openAfter? inner c = some inner' ∧ a = c :: a' ∧
        block? inner' cs = some (a', b) := by
    obtain ⟨⟨a', b'⟩, hsome, hpair⟩ := Option.map_eq_some_iff.mp h
    obtain ⟨rfl, rfl⟩ := Prod.mk.inj hpair
    exact ⟨inner', a', ho, rfl, hsome⟩
  rw [block?] at h
  split_ifs at h with ho hi hc hi'
  · exact .inr (hmore (by simp [openAfter?, ho, hi]) h)
  · exact .inr (hmore (by simp [openAfter?, hc, hi']) h)
  · obtain ⟨rfl, rfl⟩ := Prod.mk.inj (Option.some.inj h)
    exact .inl ⟨by simpa using hi', hc, rfl, rfl⟩
  · exact .inr (hmore (by simp [openAfter?, ho, hc]) h)

theorem block_go_on {inner inner' : Bool} {c : Char} (ho : openAfter? inner c = some inner')
    (cs : List Char) :
    block? inner (c :: cs) = (block? inner' cs).map fun (a, b) => (c :: a, b) := by
  unfold openAfter? at ho
  rw [block?]
  split_ifs at ho ⊢ with hc hi hc' hi'
  · rw [← Option.some.inj ho]
  · rw [← Option.some.inj ho]
  · rw [← Option.some.inj ho]

theorem block_eq {inner : Bool} {cs a b : List Char} (h : block? inner cs = some (a, b)) :
    cs = a ++ '}' :: b := by
  induction cs generalizing inner a with
  | nil => contradiction
  | cons c cs ih =>
    rcases block_cons h with ⟨-, rfl, rfl, rfl⟩ | ⟨inner', a', -, rfl, hmore⟩
    · rfl
    · rw [ih hmore, List.cons_append]

theorem block_append {inner : Bool} {cs a b : List Char} (h : block? inner cs = some (a, b))
    (more : List Char) : block? inner (cs ++ more) = some (a, b ++ more) := by
  induction cs generalizing inner a with
  | nil => contradiction
  | cons c cs ih =>
    rcases block_cons h with ⟨rfl, rfl, rfl, rfl⟩ | ⟨inner', a', ho, rfl, hmore⟩
    · rfl
    · rw [List.cons_append, block_go_on ho, ih hmore, Option.map_some]

def Encloses (cs body : List Char) : Prop :=
  ∃ after rest, '{' :: after <:+ cs ∧ block? false after = some (body, rest)

theorem Encloses.of_suffix {cs cs' body : List Char} (h : Encloses cs body) (hs : cs <:+ cs') :
    Encloses cs' body := by
  obtain ⟨after, rest, hsuffix, hblock⟩ := h
  exact ⟨after, rest, hsuffix.trans hs, hblock⟩

theorem Encloses.length_lt {cs body : List Char} (h : Encloses cs body) :
    body.length < cs.length := by
  obtain ⟨after, rest, hsuffix, hblock⟩ := h
  have hlength := hsuffix.length_le
  rw [block_eq hblock] at hlength
  simp only [List.length_cons, List.length_append] at hlength
  omega

structure Behind (rest cs : List Char) : Prop where
  suffix : rest <:+ cs
  length_lt : rest.length < cs.length

theorem Behind.of_suffix {rest cs cs' : List Char} (h : Behind rest cs) (hs : cs <:+ cs') :
    Behind rest cs' :=
  ⟨h.suffix.trans hs, Nat.lt_of_lt_of_le h.length_lt hs.length_le⟩

theorem Behind.suffix_of {rest cs cs' : List Char} (h : Behind cs cs') (hs : rest <:+ cs) :
    Behind rest cs' :=
  ⟨hs.trans h.suffix, Nat.lt_of_le_of_lt hs.length_le h.length_lt⟩

theorem spaced_block_eq {cs body rest : List Char} (h : spacedBlock? cs = some (body, rest)) :
    '{' :: (body ++ '}' :: rest) <:+ cs ∧
      block? false (body ++ '}' :: rest) = some (body, rest) := by
  obtain ⟨after, hdrop, hblock⟩ := Option.bind_eq_some_iff.mp h
  have heq : skipBlanks cs = '{' :: after := drop_text_eq hdrop
  rw [block_eq hblock] at heq hblock
  exact ⟨heq ▸ skip_suffix cs, hblock⟩

theorem spaced_block_close {cs body rest : List Char}
    (h : spacedBlock? cs = some (body, rest)) : '}' :: rest <:+ cs :=
  ((List.suffix_append body _).trans (List.suffix_cons _ _)).trans (spaced_block_eq h).1

theorem spaced_block_encloses {cs body rest : List Char}
    (h : spacedBlock? cs = some (body, rest)) : Encloses cs body ∧ Behind rest cs := by
  obtain ⟨hsuffix, hblock⟩ := spaced_block_eq h
  have hbehind : Behind rest ('}' :: rest) := ⟨List.suffix_cons _ _, by simp⟩
  exact ⟨⟨_, rest, hsuffix, hblock⟩, hbehind.of_suffix (spaced_block_close h)⟩

def alternates : Bool → List Char → Bool
  | _, [] => true
  | inner, c :: cs =>
    if c = '{' then !inner && alternates true cs
    else if c = '}' then inner && alternates false cs
    else alternates inner cs

theorem alternates_cons {inner inner' : Bool} {c : Char} (ho : openAfter? inner c = some inner')
    (cs : List Char) : alternates inner (c :: cs) = alternates inner' cs := by
  unfold openAfter? at ho
  rw [alternates]
  split_ifs at ho ⊢ with hc hi hc' hi'
  · simp [hi, ← Option.some.inj ho]
  · simp [hi', ← Option.some.inj ho]
  · rw [← Option.some.inj ho]

theorem block_alternates {inner : Bool} {cs a b : List Char}
    (h : block? inner cs = some (a, b)) : alternates inner a := by
  induction cs generalizing inner a with
  | nil => contradiction
  | cons c cs ih =>
    rcases block_cons h with ⟨-, -, rfl, -⟩ | ⟨inner', a', ho, rfl, hmore⟩
    · rfl
    · rw [alternates_cons ho]
      exact ih hmore

theorem alternates_after {inner : Bool} {cs after : List Char} (h : alternates inner cs)
    (hs : '{' :: after <:+ cs) : alternates true after := by
  induction cs generalizing inner with
  | nil => simp at hs
  | cons c cs ih =>
    rw [alternates] at h
    rcases List.suffix_cons_iff.mp hs with heq | htail
    · obtain ⟨rfl, rfl⟩ := List.cons.inj heq
      simp only [if_true, Bool.and_eq_true] at h
      exact h.2
    · split_ifs at h with ho hc
      · exact ih (Bool.and_eq_true _ _ ▸ h).2 htail
      · exact ih (Bool.and_eq_true _ _ ▸ h).2 htail
      · exact ih h htail

theorem block_clear {cs a b : List Char} (h : alternates true cs)
    (hb : block? false cs = some (a, b)) : '{' ∉ a := by
  induction cs generalizing a with
  | nil => contradiction
  | cons c cs ih =>
    rcases block_cons hb with ⟨-, -, rfl, -⟩ | ⟨inner', a', ho, rfl, hmore⟩
    · simp
    · by_cases hopen : c = '{'
      · simp [alternates, hopen] at h
      by_cases hclose : c = '}'
      · simp [openAfter?, hclose] at ho
      rw [openAfter?, if_neg hopen, if_neg hclose] at ho
      rw [alternates, if_neg hopen, if_neg hclose] at h
      obtain rfl := Option.some.inj ho
      simp only [List.mem_cons, not_or]
      exact ⟨fun he => hopen he.symm, ih h hmore⟩

/-- A block within a block encloses no brace that opens another. -/
theorem Encloses.clear {cs body inner : List Char} (h : Encloses cs body)
    (hi : Encloses body inner) : '{' ∉ inner := by
  obtain ⟨after, rest, -, hblock⟩ := h
  obtain ⟨after', rest', hsuffix, hblock'⟩ := hi
  exact block_clear (alternates_after (block_alternates hblock) hsuffix) hblock'

theorem Encloses.mem_open {cs body : List Char} (h : Encloses cs body) : '{' ∈ cs := by
  obtain ⟨after, rest, hsuffix, -⟩ := h
  exact hsuffix.subset (List.mem_cons_self ..)

theorem strip_parts (cs : List Char) : ∃ before after,
    cs = before ++ (strip cs ++ after) ∧ (∀ c ∈ before, isBlank c) ∧ ∀ c ∈ after, isBlank c := by
  refine ⟨cs.takeWhile isBlank, ((skipBlanks cs).reverse.takeWhile isBlank).reverse, ?_, ?_, ?_⟩
  · have hsplit := List.takeWhile_append_dropWhile (p := isBlank) (l := (skipBlanks cs).reverse)
    have hback : strip cs ++ ((skipBlanks cs).reverse.takeWhile isBlank).reverse =
        skipBlanks cs := by
      rw [strip, ← List.reverse_append]
      exact (congrArg List.reverse hsplit).trans (List.reverse_reverse _)
    rw [hback]
    exact (List.takeWhile_append_dropWhile (p := isBlank) (l := cs)).symm
  · exact fun c hc => List.mem_takeWhile_imp hc
  · exact fun c hc => List.mem_takeWhile_imp (List.mem_reverse.mp hc)

theorem strip_length_le (cs : List Char) : (strip cs).length ≤ cs.length := by
  obtain ⟨before, after, heq, -⟩ := strip_parts cs
  have hlength := congrArg List.length heq
  simp only [List.length_append] at hlength
  omega

theorem Encloses.of_strip {cs body : List Char} (h : Encloses (strip cs) body) :
    Encloses cs body := by
  obtain ⟨before, after, heq, -⟩ := strip_parts cs
  obtain ⟨behind, rest, ⟨front, hfront⟩, hblock⟩ := h
  refine ⟨behind ++ after, rest ++ after, ⟨before ++ front, ?_⟩, block_append hblock after⟩
  rw [heq, ← hfront]
  simp

end Melody.Text

namespace Melody.Command

open Melody.Text

theorem parallel_encloses {cs body rest : List Char} (h : parallel? cs = some (body, rest)) :
    Encloses cs body ∧ Behind rest cs := by
  unfold parallel? at h
  obtain ⟨cs₁, h₁, h⟩ := Option.bind_eq_some_iff.mp h
  obtain ⟨⟨body', cs₂⟩, h₂, h⟩ := Option.bind_eq_some_iff.mp h
  obtain ⟨cs₃, h₃, h⟩ := Option.bind_eq_some_iff.mp h
  obtain ⟨rfl, rfl⟩ := Prod.mk.inj (Option.some.inj h)
  obtain ⟨hbody, hrest⟩ := spaced_block_encloses h₂
  have hsuffix := drop_text_suffix h₁
  have hlast := (drop_text_suffix h₃).trans (skip_suffix cs₂)
  exact ⟨hbody.of_suffix hsuffix, (hrest.suffix_of hlast).of_suffix hsuffix⟩

theorem alternative_encloses {cs body rest : List Char}
    (h : alternative? cs = some (body, rest)) : Encloses cs body ∧ Behind rest cs := by
  obtain ⟨cs₁, h₁, h⟩ := Option.bind_eq_some_iff.mp h
  have hsuffix := (drop_text_suffix h₁).trans (skip_suffix cs)
  obtain ⟨hbody, hrest⟩ := spaced_block_encloses h
  exact ⟨hbody.of_suffix hsuffix, hrest.of_suffix hsuffix⟩

theorem conditional_encloses {cs rest : List Char} {c : Conditional}
    (h : conditional? cs = some (c, rest)) :
    ((∃ body, c.whenTrue = strip body ∧ Encloses cs body) ∧
      (c.whenFalse = [] ∨ ∃ body, c.whenFalse = strip body ∧ Encloses cs body)) ∧
    Behind rest cs := by
  unfold conditional? at h
  obtain ⟨cs₁, h₁, h⟩ := Option.bind_eq_some_iff.mp h
  obtain ⟨cs₂, h₂, h⟩ := Option.bind_eq_some_iff.mp h
  obtain ⟨⟨condition, cs₃⟩, h₃, h⟩ := Option.bind_eq_some_iff.mp h
  dsimp only at h
  split_ifs at h
  obtain ⟨⟨body, cs₄⟩, h₄, h⟩ := Option.bind_eq_some_iff.mp h
  have hsuffix : cs₃ <:+ cs := (up_to_suffix h₃).trans <|
    (drop_text_suffix h₂).trans <| (skip_suffix cs₁).trans (drop_text_suffix h₁)
  obtain ⟨hbody, hrest⟩ := spaced_block_encloses h₄
  have hrest := hrest.of_suffix hsuffix
  dsimp only at h
  split at h
  · rename_i second cs₅ h₅
    obtain ⟨hsecond, hrest'⟩ := alternative_encloses h₅
    obtain ⟨rfl, rfl⟩ := Prod.mk.inj (Option.some.inj h)
    exact ⟨⟨⟨body, rfl, hbody.of_suffix hsuffix⟩,
        .inr ⟨second, rfl, hsecond.of_suffix hrest.suffix⟩⟩,
      hrest'.of_suffix hrest.suffix⟩
  · obtain ⟨rfl, rfl⟩ := Prod.mk.inj (Option.some.inj h)
    exact ⟨⟨⟨body, rfl, hbody.of_suffix hsuffix⟩, .inl rfl⟩, hrest⟩

theorem collection_encloses {cs name body rest : List Char} {reversed : Bool}
    (h : collection? cs = some (name, reversed, body, rest)) :
    Encloses cs body ∧ Behind rest cs := by
  simp only [collection?, Option.orElse_eq_orElse, Option.orElse_eq_or] at h
  rcases Option.or_eq_some_iff.mp h with h | ⟨-, h⟩
  · obtain ⟨⟨name', cs₁⟩, h₁, h⟩ := Option.bind_eq_some_iff.mp h
    obtain ⟨⟨body', cs₂⟩, h₂, h⟩ := Option.bind_eq_some_iff.mp h
    cases h
    have hsuffix := run_suffix h₁
    obtain ⟨hbody, hrest⟩ := spaced_block_encloses h₂
    exact ⟨hbody.of_suffix hsuffix, hrest.of_suffix hsuffix⟩
  · obtain ⟨cs₁, h₁, h⟩ := Option.bind_eq_some_iff.mp h
    obtain ⟨⟨name', cs₂⟩, h₂, h⟩ := Option.bind_eq_some_iff.mp h
    obtain ⟨cs₃, h₃, h⟩ := Option.bind_eq_some_iff.mp h
    obtain ⟨⟨body', cs₄⟩, h₄, h⟩ := Option.bind_eq_some_iff.mp h
    cases h
    have hsuffix := (drop_text_suffix h₃).trans <| (run_suffix h₂).trans (drop_text_suffix h₁)
    obtain ⟨hbody, hrest⟩ := spaced_block_encloses h₄
    exact ⟨hbody.of_suffix hsuffix, hrest.of_suffix hsuffix⟩

theorem iteration_encloses {cs rest : List Char} {i : Iteration}
    (h : iteration? cs = some (i, rest)) :
    (∃ body, i.body = strip body ∧ Encloses cs body) ∧ Behind rest cs := by
  unfold iteration? at h
  obtain ⟨cs₁, h₁, h⟩ := Option.bind_eq_some_iff.mp h
  obtain ⟨cs₂, h₂, h⟩ := Option.bind_eq_some_iff.mp h
  obtain ⟨cs₃, h₃, h⟩ := Option.bind_eq_some_iff.mp h
  obtain ⟨cs₄, h₄, h⟩ := Option.bind_eq_some_iff.mp h
  obtain ⟨⟨name, cs₅⟩, h₅, h⟩ := Option.bind_eq_some_iff.mp h
  obtain ⟨cs₆, h₆, h⟩ := Option.bind_eq_some_iff.mp h
  obtain ⟨cs₇, h₇, h⟩ := Option.bind_eq_some_iff.mp h
  obtain ⟨cs₈, h₈, h⟩ := Option.bind_eq_some_iff.mp h
  obtain ⟨⟨collection, reversed, body, cs₉⟩, h₉, h⟩ := Option.bind_eq_some_iff.mp h
  cases h
  have hsuffix : cs₈ <:+ cs := (blanks_suffix h₈).trans <| (drop_text_suffix h₇).trans <|
    (blanks_suffix h₆).trans <| (run_suffix h₅).trans <| (blanks_suffix h₄).trans <|
    (drop_text_suffix h₃).trans <| (blanks_suffix h₂).trans (drop_text_suffix h₁)
  obtain ⟨hbody, hrest⟩ := collection_encloses h₉
  exact ⟨⟨body, rfl, hbody.of_suffix hsuffix⟩, hrest.of_suffix hsuffix⟩

theorem repetition_encloses {cs rest : List Char} {r : Repetition}
    (h : repetition? cs = some (r, rest)) : Encloses cs r.body ∧ Behind rest cs := by
  unfold repetition? at h
  obtain ⟨cs₁, h₁, h⟩ := Option.bind_eq_some_iff.mp h
  obtain ⟨cs₂, h₂, h⟩ := Option.bind_eq_some_iff.mp h
  obtain ⟨⟨times, cs₃⟩, h₃, h⟩ := Option.bind_eq_some_iff.mp h
  obtain ⟨cs₄, h₄, h⟩ := Option.bind_eq_some_iff.mp h
  obtain ⟨cs₅, h₅, h⟩ := Option.bind_eq_some_iff.mp h
  obtain ⟨⟨body, cs₆⟩, h₆, h⟩ := Option.bind_eq_some_iff.mp h
  cases h
  have hsuffix : cs₅ <:+ cs := (drop_text_suffix h₅).trans <|
    (blanks_suffix h₄).trans <| (run_suffix h₃).trans <| (blanks_suffix h₂).trans
      (drop_text_suffix h₁)
  obtain ⟨hbody, hrest⟩ := spaced_block_encloses h₆
  exact ⟨hbody.of_suffix hsuffix, hrest.of_suffix hsuffix⟩

end Melody.Command
