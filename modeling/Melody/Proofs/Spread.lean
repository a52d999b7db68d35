import Melody.Proofs.Opening

/-!
# Passages spread over lines

Every passage has a text in which each statement starts a line. Read as lines, without a search
for blocks, this text gives a command for each line at every depth. These are more commands than
stand in front of the first block of the passage.
-/

set_option autoImplicit false

namespace Melody.Command

open Melody.Text

namespace Passage

def spread : Passage → List Char
  | stop => []
  | line s rest => '\n' :: s.text rest.spread
  | branch left right whenTrue whenFalse rest =>
    '\n' :: branchText left right whenTrue.spread whenFalse.spread rest.spread
  | forEach name collection body rest =>
    '\n' :: forEachText name collection body.spread rest.spread
  | loop times body rest => '\n' :: loopText times body.spread rest.spread

def leaves : Passage → Nat
  | stop => 0
  | line _ rest => rest.leaves + 1
  | branch _ _ whenTrue whenFalse rest => whenTrue.leaves + (whenFalse.leaves + rest.leaves)
  | forEach _ _ body rest => body.leaves + rest.leaves
  | loop _ body rest => body.leaves + rest.leaves

end Passage

theorem gap_break (after : Bool) : Gap after ['\n'] :=
  ⟨by decide, fun _ => List.cons_ne_nil _ _⟩

theorem Opens.spread {p rest : Passage} {shape : Shape} {inners : List Passage}
    (h : Opens p shape inners rest) :
    p.spread = '\n' :: blockText p (inners.map Passage.spread) rest.spread := by
  cases h with
  | branch => rfl
  | forEach => rfl
  | loop => rfl

theorem written_spread (p : Passage) (after : Bool) : Written after p p.spread := by
  induction p using Passage.deep generalizing after with
  | stop => exact .stop gap_nil
  | line s rest ih => exact .line (gap_break after) (ih true)
  | block p shape inners rest hopens ihs ih =>
    rw [hopens.spread]
    exact hopens.write (List.forall₂_map_right_iff.mpr (List.forall₂_same.mpr fun inner hmem =>
      ihs inner hmem false)) (gap_break after) (ih true)

theorem spread_stop (p : Passage) : Stops isBlank p.spread.reverse := by
  induction p using Passage.deep with
  | stop => exact nofun
  | line s rest ih => exact (statement_puts s).stop ih ['\n']
  | block p shape inners rest hopens _ ih =>
    have htexts : List.Forall₂ (Written false) inners (inners.map Passage.spread) :=
      List.forall₂_map_right_iff.mpr (List.forall₂_same.mpr fun inner _ => written_spread inner _)
    rw [hopens.spread]
    exact (hopens.puts htexts).stop ih ['\n']

section Lines

variable {manner : Manner} {ctx : Context} {n : Nat} {cs : List Char}

def Yields (manner : Manner) (ctx : Context) (n : Nat) (cs : List Char) : Prop :=
  ∀ front given, (readLines manner ctx (front ++ cs)).Gives given → n ≤ given.length

theorem Yields.behind (h : Yields manner ctx n cs) (w : List Char) :
    Yields manner ctx n (w ++ cs) := by
  intro front given hgiven
  rw [← List.append_assoc] at hgiven
  exact h _ _ hgiven

theorem Yields.line (h : Yields manner ctx n cs) (s : Statement) :
    Yields manner ctx (n + 1) ('\n' :: s.text cs) := by
  intro front given hgiven
  rw [read_lines_cut manner ctx rfl, read_lines_text] at hgiven
  obtain ⟨first, others, rfl, -, hothers⟩ := Reading.gives_and_then.mp hgiven
  obtain ⟨own, behind, rfl, hown, hbehind⟩ := Reading.gives_and_then.mp hothers
  obtain ⟨-, rfl⟩ := (gives_statement manner ctx s).mp hown
  have hlength := h [] behind hbehind
  simp only [List.length_append, List.length_singleton]
  omega

theorem spread_yields (p : Passage) (h : Yields manner ctx n cs) :
    Yields manner ctx (p.leaves + n) (p.spread ++ cs) := by
  have hbreak : ∀ c ∈ ['\n'], isBlank c := (gap_break false).blank
  induction p generalizing n cs with
  | stop =>
    rw [Passage.leaves, Nat.zero_add]
    exact h
  | line s rest ih =>
    rw [Passage.spread, List.cons_append, (statement_puts s).append, Passage.leaves,
      Nat.add_right_comm]
    exact (ih h).line s
  | branch left right a b rest iha ihb ih =>
    obtain ⟨head, -, hsplit⟩ :=
      branch_split hbreak (rest.spread ++ cs) left right a.spread b.spread
    rw [Passage.spread, List.cons_append, (branch_puts left right _ _).append,
      ← List.singleton_append, hsplit, Passage.leaves, Nat.add_assoc, Nat.add_assoc]
    exact ((iha (((ihb ((ih h).behind ['}'])).behind " senao \x7b".toList).behind
      ['}'])).behind ['{']).behind head
  | forEach name collection body rest ihb ih =>
    obtain ⟨head, -, hsplit⟩ :=
      for_each_split hbreak (rest.spread ++ cs) name collection body.spread
    rw [Passage.spread, List.cons_append, (for_each_puts name collection _).append,
      ← List.singleton_append, hsplit, Passage.leaves, Nat.add_assoc]
    exact ((ihb ((ih h).behind ['}'])).behind ['{']).behind head
  | loop times body rest ihb ih =>
    obtain ⟨head, -, hsplit⟩ := loop_split hbreak (rest.spread ++ cs) times body.spread
    rw [Passage.spread, List.cons_append, (loop_puts times _).append,
      ← List.singleton_append, hsplit, Passage.leaves, Nat.add_assoc]
    exact ((ihb ((ih h).behind ['}'])).behind ['{']).behind head

end Lines

theorem Opens.leaves {p rest : Passage} {shape : Shape} {inners : List Passage}
    (h : Opens p shape inners rest) : ∃ inner ∈ inners, inner.leaves ≤ p.leaves := by
  cases h with
  | @branch _ _ a => exact ⟨a, by simp, Nat.le_add_right _ _⟩
  | @forEach _ _ body => exact ⟨body, by simp, Nat.le_add_right _ _⟩
  | @loop _ body => exact ⟨body, by simp, Nat.le_add_right _ _⟩

theorem leaves_pos {p : Passage} (hp : p ≠ .stop) (hf : p.Filled) : 0 < p.leaves := by
  induction p using Passage.deep with
  | stop => contradiction
  | line s rest _ => exact Nat.succ_pos _
  | block p shape inners rest hopens ihs _ =>
    obtain ⟨inner, hmem, hle⟩ := hopens.leaves
    obtain ⟨hinner, hfilled⟩ := (hopens.filled hf).1 inner hmem
    exact (ihs inner hmem hinner hfilled).trans_le hle

/-- A block has texts of any length, by blanks in its bodies. -/
theorem Opens.long {p rest : Passage} {shape : Shape} {inners : List Passage}
    (h : Opens p shape inners rest) (n : Nat) :
    ∃ texts, List.Forall₂ (Written false) inners texts ∧ n ≤ (blockText p texts []).length := by
  have hgap : Gap false (List.replicate n '\n') :=
    ⟨fun c hc => List.eq_of_mem_replicate hc ▸ rfl, nofun⟩
  let layout (inner : Passage) := List.replicate n '\n' ++ inner.spread
  have htexts : List.Forall₂ (Written false) inners (inners.map layout) :=
    List.forall₂_map_right_iff.mpr <| List.forall₂_same.mpr fun inner _ =>
      written_lead (written_spread inner false) hgap
  refine ⟨inners.map layout, htexts, ?_⟩
  obtain ⟨inner, hmem, -⟩ := h.leaves
  have hle := h.text_length htexts _ (List.mem_map_of_mem hmem)
  rw [List.length_append, List.length_replicate] at hle
  omega

/-- Fewer commands stand in front of the first block than there are lines in the passage. -/
theorem front_lt_leaves {ctx : Context} {p : Passage} (hf : p.Filled) {front behind : List Command}
    {c : Command} (h : p.commands ctx = front ++ c :: behind)
    (hfront : ∀ c ∈ front, c.shape? = none) (hc : c.shape? ≠ none) :
    front.length < p.leaves := by
  induction p using Passage.deep generalizing front with
  | stop => simp [Passage.commands] at h
  | line s rest ih =>
    cases front with
    | nil =>
      rw [← (List.cons.inj h).1] at hc
      exact absurd (statement_flat s ctx) hc
    | cons c' front =>
      exact Nat.succ_lt_succ (ih hf (List.cons.inj h).2 fun c hmem => hfront c (by simp [hmem]))
  | block p shape inners rest hopens _ _ =>
    obtain ⟨own, hcommands, hshape, -⟩ := hopens.commands ctx
    cases front with
    | nil =>
      refine leaves_pos ?_ hf
      rintro rfl
      cases hopens
    | cons c' front =>
      rw [hcommands] at h
      have hflat := hfront c' (by simp)
      rw [← (List.cons.inj h).1, hshape] at hflat
      contradiction

end Melody.Command
