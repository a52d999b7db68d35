import Mathlib.Data.List.Forall2
import Mathlib.Order.MinMax
import Melody.Proofs.Seeking

/-!
# Passages that open with a block

The three kinds of blocks have the same structure: a shape, passages inside, and a rest. What
the searches do with a text is said once for all of them: statements in front are read as lines,
and a block that is found is read between these and the rest.
-/

set_option autoImplicit false

namespace Melody.Command

open Melody.Text

inductive Opens : Passage → Shape → List Passage → Passage → Prop where
  | branch {left right : Word} {whenTrue whenFalse rest : Passage} :
      Opens (.branch left right whenTrue whenFalse rest) .branch [whenTrue, whenFalse] rest
  | forEach {name collection : Word} {body rest : Passage} :
      Opens (.forEach name collection body rest) .forEach [body] rest
  | loop {times : Nat} {body rest : Passage} :
      Opens (.loop times body rest) .loop [body] rest

def blockText : Passage → List (List Char) → List Char → List Char
  | .branch left right _ _ _, [first, second], tail => branchText left right first second tail
  | .forEach name collection _ _, [body], tail => forEachText name collection body tail
  | .loop times _ _, [body], tail => loopText times body tail
  | _, _, tail => tail

def Shape.rank : Shape → Nat
  | .branch => 0
  | .forEach => 1
  | .loop => 2

theorem rank_injective {shape other : Shape} (h : shape.rank = other.rank) : shape = other := by
  cases shape <;> cases other <;> first | rfl | contradiction

def searchOrder : List Shape :=
  [.branch, .forEach, .loop]

def Passage.Counted : Passage → Prop
  | .loop times _ _ => (Nat.toDigits 10 times).length ≤ Number.maxIntegerDigits
  | _ => True

def Shape.trim : Shape → List Char → List Char
  | .loop, cs => cs
  | _, cs => strip cs

section Opens

variable {p rest : Passage} {shape : Shape} {inners : List Passage} (h : Opens p shape inners rest)
include h

theorem Opens.depth (d : Nat) :
    p.depth ≤ d + 1 ↔ (∀ inner ∈ inners, inner.depth ≤ d) ∧ rest.depth ≤ d + 1 := by
  cases h with
  | branch => simp [Passage.depth, and_assoc]
  | forEach => simp [Passage.depth]
  | loop => simp [Passage.depth]

theorem Opens.filled (hf : p.Filled) :
    (∀ inner ∈ inners, inner ≠ .stop ∧ inner.Filled) ∧ rest.Filled := by
  cases h with
  | branch => simpa [Passage.Filled, and_assoc] using hf
  | forEach => simpa [Passage.Filled] using hf
  | loop => simpa [Passage.Filled] using hf

theorem Opens.ordered (stage : Nat) :
    p.ordered stage ↔ stage ≤ shape.rank ∧ (∀ inner ∈ inners, inner.ordered shape.rank) ∧
      rest.ordered (shape.rank + 1) := by
  cases h with
  | branch => simp [Passage.ordered, Shape.rank, and_assoc]
  | forEach => simp [Passage.ordered, Shape.rank, and_assoc]
  | loop => simp [Passage.ordered, Shape.rank, and_assoc]

theorem Opens.readable (ctx : Context) :
    p.readable ctx ↔
      p.Counted ∧ (∀ inner ∈ inners, inner.readable ctx) ∧ rest.readable ctx := by
  cases h with
  | branch => simp [Passage.readable, Passage.Counted, and_assoc]
  | forEach => simp [Passage.readable, Passage.Counted]
  | loop => simp [Passage.readable, Passage.Counted, and_assoc]

theorem Opens.has (other : Shape) :
    p.has other ↔ other = shape ∨ (∃ inner ∈ inners, inner.has other) ∨ rest.has other := by
  cases h with
  | branch => simp [Passage.has, or_assoc]
  | forEach => simp [Passage.has, or_assoc]
  | loop => simp [Passage.has, or_assoc]

theorem Opens.lacks {other : Shape} (hp : p.has other = false) :
    (∀ inner ∈ inners, inner.has other = false) ∧ rest.has other = false := by
  have hnot := mt (h.has other).mpr (Bool.eq_false_iff.mp hp)
  exact ⟨fun inner hmem => Bool.eq_false_iff.mpr fun hin => hnot (.inr (.inl ⟨inner, hmem, hin⟩)),
    Bool.eq_false_iff.mpr fun hin => hnot (.inr (.inr hin))⟩

theorem Opens.rank_le {stage : Nat}
    (hlacks : ∀ other : Shape, other.rank < stage → p.has other = false) : stage ≤ shape.rank := by
  refine Nat.le_of_not_lt fun hlt => ?_
  have hhas := (h.has shape).mpr (.inl rfl)
  rw [hlacks shape hlt] at hhas
  contradiction

theorem Opens.commands (ctx : Context) :
    ∃ c, p.commands ctx = c :: rest.commands ctx ∧ c.shape? = some shape ∧
      c.inner = inners.flatMap fun inner => inner.commands ctx := by
  cases h with
  | branch => exact ⟨_, rfl, rfl, by simp [inner, ofBlock]⟩
  | forEach => exact ⟨_, rfl, rfl, by simp [inner, ofBlock]⟩
  | loop => exact ⟨_, rfl, rfl, by simp [inner, ofBlock]⟩

/-- A written block: blanks, the block with the texts of what is inside, and the rest. -/
theorem Opens.written {after : Bool} {cs : List Char} (hw : Written after p cs) :
    ∃ gap texts tail, cs = gap ++ blockText p texts tail ∧ Gap after gap ∧
      List.Forall₂ (Written false) inners texts ∧ Written true rest tail := by
  cases h with
  | branch =>
    cases hw with
    | @branch _ gap first second tail _ _ _ _ _ hgap ha hb hrest =>
      exact ⟨gap, [first, second], tail, rfl, hgap, .cons ha (.cons hb .nil), hrest⟩
  | forEach =>
    cases hw with
    | @forEach _ gap body tail _ _ _ _ hgap hb hrest =>
      exact ⟨gap, [body], tail, rfl, hgap, .cons hb .nil, hrest⟩
  | loop =>
    cases hw with
    | @loop _ gap body tail _ _ _ hgap hb hrest =>
      exact ⟨gap, [body], tail, rfl, hgap, .cons hb .nil, hrest⟩

section Texts

variable {texts : List (List Char)} (ht : List.Forall₂ (Written false) inners texts)
include ht

theorem Opens.write {after : Bool} {gap tail : List Char} (hg : Gap after gap)
    (hr : Written true rest tail) : Written after p (gap ++ blockText p texts tail) := by
  cases h with
  | branch =>
    obtain _ | ⟨ha, _ | ⟨hb, _ | _⟩⟩ := ht
    exact .branch hg ha hb hr
  | forEach =>
    obtain _ | ⟨hb, _ | _⟩ := ht
    exact .forEach hg hb hr
  | loop =>
    obtain _ | ⟨hb, _ | _⟩ := ht
    exact .loop hg hb hr

theorem Opens.puts : Puts (blockText p texts) := by
  cases h with
  | branch =>
    obtain _ | ⟨ha, _ | ⟨hb, _ | _⟩⟩ := ht
    exact branch_puts _ _ _ _
  | forEach =>
    obtain _ | ⟨hb, _ | _⟩ := ht
    exact for_each_puts _ _ _
  | loop =>
    obtain _ | ⟨hb, _ | _⟩ := ht
    exact loop_puts _ _

theorem Opens.text_length : ∀ text ∈ texts, text.length ≤ (blockText p texts []).length := by
  intro text hmem
  cases h with
  | @branch left right =>
    obtain _ | @⟨_, first, _, _, _, _ | @⟨_, second, _, _, _, _ | _⟩⟩ := ht
    obtain ⟨head, -, hsplit⟩ := branch_split gap_nil.blank [] left right first second
    have hlength := congrArg List.length hsplit
    simp only [List.nil_append, List.length_append, List.length_cons] at hlength
    rw [blockText, hlength]
    rcases (by simpa using hmem : text = first ∨ text = second) with rfl | rfl
    · omega
    · omega
  | @forEach name collection =>
    obtain _ | @⟨_, body, _, _, _, _ | _⟩ := ht
    obtain ⟨head, -, hsplit⟩ := for_each_split gap_nil.blank [] name collection body
    have hlength := congrArg List.length hsplit
    simp only [List.nil_append, List.length_append, List.length_cons] at hlength
    rw [blockText, hlength, List.mem_singleton.mp hmem]
    omega
  | @loop times =>
    obtain _ | @⟨_, body, _, _, _, _ | _⟩ := ht
    obtain ⟨head, -, hsplit⟩ := loop_split gap_nil.blank [] times body
    have hlength := congrArg List.length hsplit
    simp only [List.nil_append, List.length_append, List.length_cons] at hlength
    rw [blockText, hlength, List.mem_singleton.mp hmem]
    omega

/-- A shallow block is found, and read if what is inside can be read. -/
theorem Opens.seek (rs : Readers) (ctx : Context)
    (hd : ∀ inner ∈ inners, inner.depth ≤ 1) (hf : ∀ inner ∈ inners, inner ≠ .stop) :
    ∃ r c, (∀ tail, seek rs shape (blockText p texts tail) = some (r, tail)) ∧
      p.commands ctx = c :: rest.commands ctx ∧
      (r.Gives [c] ↔ p.Counted ∧ List.Forall₂ (fun inner text =>
        (rs.body (shape.trim text)).Gives (inner.commands ctx)) inners texts) := by
  cases h with
  | @branch left right a b rest =>
    obtain _ | ⟨ha, _ | ⟨hb, _ | _⟩⟩ := ht
    have hne := (written_strip hb).2.2 (hf b (by simp))
    refine ⟨_, _, fun tail => seek_branch rs left right ha (hd a (by simp)) hb
      (hd b (by simp)) tail, rfl, ?_⟩
    rw [gives_conditional hne]
    simp [Passage.Counted, Shape.trim]
  | @forEach name collection body rest =>
    obtain _ | ⟨hb, _ | _⟩ := ht
    refine ⟨_, _, fun tail => seek_for_each rs name collection hb (hd body (by simp)) tail,
      rfl, ?_⟩
    rw [gives_iteration]
    simp [Passage.Counted, Shape.trim]
  | @loop times body rest =>
    obtain _ | ⟨hb, _ | _⟩ := ht
    refine ⟨_, _, fun tail => seek_loop rs times hb (hd body (by simp)) tail, rfl, ?_⟩
    rw [gives_repetition]
    simp [Passage.Counted, Shape.trim]

end Texts

end Opens

/-- Induction over a passage, with one case for all blocks. -/
theorem Passage.deep {motive : Passage → Prop} (stop : motive .stop)
    (line : ∀ s rest, motive rest → motive (.line s rest))
    (block : ∀ p shape inners rest, Opens p shape inners rest →
      (∀ inner ∈ inners, motive inner) → motive rest → motive p)
    (p : Passage) : motive p := by
  induction p with
  | stop => exact stop
  | line s rest ih => exact line s rest ih
  | branch left right a b rest iha ihb ih =>
    exact block _ _ _ _ .branch (by simpa using ⟨iha, ihb⟩) ih
  | forEach name collection body rest ihb ih =>
    exact block _ _ _ _ .forEach (by simpa using ihb) ih
  | loop times body rest ihb ih => exact block _ _ _ _ .loop (by simpa using ihb) ih

theorem lacks_of_ordered {p : Passage} {stage : Nat} {other : Shape} (h : p.ordered stage)
    (ho : other.rank < stage) : p.has other = false := by
  induction p using Passage.deep generalizing stage with
  | stop => rfl
  | line s rest ih => exact ih h ho
  | block p shape inners rest hopens ihs ih =>
    obtain ⟨hstage, hinners, hrest⟩ := (hopens.ordered stage).mp h
    refine Bool.eq_false_iff.mpr fun hhas => ?_
    rcases (hopens.has other).mp hhas with rfl | ⟨inner, hmem, hinner⟩ | hinner
    · omega
    · rw [ihs inner hmem (hinners inner hmem) (by omega)] at hinner
      contradiction
    · rw [ih hrest (by omega)] at hinner
      contradiction

theorem ordered_earlier {p : Passage} {stage stage' : Nat} (h : p.ordered stage)
    (hs : stage' ≤ stage) : p.ordered stage' := by
  induction p using Passage.deep generalizing stage with
  | stop => rfl
  | line s rest ih => exact ih h hs
  | block p shape inners rest hopens _ _ =>
    obtain ⟨hstage, hinside⟩ := (hopens.ordered stage).mp h
    exact (hopens.ordered stage').mpr ⟨hs.trans hstage, hinside⟩

theorem ordered_later {p : Passage} {stage stage' : Nat} (h : p.ordered stage)
    (hlacks : ∀ other : Shape, other.rank < stage' → p.has other = false) : p.ordered stage' := by
  induction p using Passage.deep with
  | stop => rfl
  | line s rest ih => exact ih h hlacks
  | block p shape inners rest hopens _ _ =>
    have hinside := ((hopens.ordered stage).mp h).2
    exact (hopens.ordered stage').mpr ⟨hopens.rank_le hlacks, hinside⟩

/-- The searches from a stage on, up to the one for a shape. -/
theorem order_split (shape : Shape) : ∀ stage ≤ shape.rank, ∃ skipped,
    searchOrder.drop stage = skipped ++ shape :: searchOrder.drop (shape.rank + 1) ∧
      ∀ other, other ∈ skipped ↔ stage ≤ other.rank ∧ other.rank < shape.rank := by
  intro stage hstage
  refine ⟨(searchOrder.take shape.rank).drop stage, ?_, fun other => ?_⟩
  · revert stage
    cases shape with
    | branch => decide
    | forEach => decide
    | loop => decide
  · revert stage
    cases shape with
    | branch =>
      cases other with
      | _ => decide
    | forEach =>
      cases other with
      | _ => decide
    | loop =>
      cases other with
      | _ => decide

section Stages

variable {rs : Readers} {shape : Shape} {cs : List Char}

theorem find_all_none {α : Type} {recognise : List Char → Option (α × List Char)}
    (h : Misses recognise cs []) : findAll recognise cs = [] := by
  have := find_all_misses h
  rwa [List.append_nil] at this

theorem stages_skip {shapes shapes' : List Shape}
    (h : ∀ shape ∈ shapes, Misses (seek rs shape) cs []) :
    stages rs (shapes ++ shapes') cs = stages rs shapes' cs := by
  induction shapes with
  | nil => rfl
  | cons shape shapes ih =>
    have hfinds := find_all_none (h shape (by simp))
    rw [List.cons_append, stages, sweep, hfinds, readFinds, List.drop_zero,
      Reading.empty_and_then, ih fun shape hs => h shape (by simp [hs])]

/-- The first find stands behind a front in which there is none. -/
theorem find_all_front {front w tail : List Char} {r : Reading}
    (hf : Misses (seek rs shape) front (w ++ tail))
    (hs : seek rs shape (w ++ tail) = some (r, tail)) :
    findAll (seek rs shape) (front ++ (w ++ tail)) =
      ⟨front.length, w.length + front.length, r⟩ ::
        (findAll (seek rs shape) tail).map (Found.shift (w.length + front.length)) := by
  rw [find_all_misses hf, find_all_hit (seek_shrinks rs shape) hs, List.map_cons, List.map_map,
    Found.shift_shift]
  simp only [Found.shift, Nat.zero_add]

/-- One find: what is in front is read as lines, and the later searches go on behind it. -/
theorem stages_hit {shapes : List Shape} {front w tail : List Char} {r : Reading}
    (hf : Misses (seek rs shape) front (w ++ tail))
    (hs : seek rs shape (w ++ tail) = some (r, tail)) (ht : Misses (seek rs shape) tail []) :
    stages rs (shape :: shapes) (front ++ (w ++ tail)) =
      (rs.lines front).andThen (r.andThen (stages rs shapes tail)) := by
  have hfront : slice (front ++ (w ++ tail)) 0 (front.length + 0) = front := by
    simp [slice]
  have htail : (front ++ (w ++ tail)).drop (w.length + front.length + 0) = tail := by
    rw [← List.append_assoc, List.drop_left' (by simp [Nat.add_comm])]
  rw [stages, sweep, find_all_front hf hs, find_all_none ht]
  simp only [List.map_nil, readFinds, hfront, htail, id, Reading.and_then_empty,
    Reading.and_then_assoc]

end Stages

structure Front (manner : Manner) (ctx : Context) (front : List Char) (fs : List Command) :
    Prop where
  reads : ∃ r : Reading, r.Gives fs ∧
    ∀ tail, readLines manner ctx (front ++ tail) = r.andThen (readLines manner ctx tail)
  misses : ∀ rs shape rest, Misses (seek rs shape) front rest
  flat : ∀ c ∈ fs, c.shape? = none

section Front

variable {manner : Manner} {ctx : Context} {front : List Char} {fs : List Command}

theorem front_nil : Front manner ctx [] [] :=
  ⟨⟨.empty, ⟨rfl, rfl⟩, fun _ => rfl⟩, fun _ _ _ => trivial, by simp⟩

theorem Front.gap (h : Front manner ctx front fs) {gap : List Char} (hg : ∀ c ∈ gap, isBlank c) :
    Front manner ctx (front ++ gap) fs := by
  obtain ⟨r, hr, hreads⟩ := h.reads
  refine ⟨⟨r, hr, fun tail => ?_⟩, fun rs shape rest => ?_, h.flat⟩
  · rw [List.append_assoc, hreads, read_lines_gap manner ctx hg]
  · exact misses_append.mpr ⟨h.misses rs shape _, misses_blanks hg⟩

theorem statement_flat (s : Statement) (ctx : Context) : (s.command ctx).shape? = none := by
  cases s with
  | play note length =>
    unfold Statement.command
    dsimp only
    split
    · rfl
    · rfl
  | pause length => rfl
  | instrument name => rfl

theorem Front.line (h : Front manner ctx front fs) {s : Statement} (hs : s.spelled ctx) :
    Front manner ctx (front ++ s.text []) (fs ++ [s.command ctx]) := by
  obtain ⟨r, hr, hreads⟩ := h.reads
  refine ⟨⟨r.andThen (readLine manner ctx s.line), hr.and_then
    ((gives_statement manner ctx s).mpr ⟨hs, rfl⟩), fun tail => ?_⟩, fun rs shape rest => ?_, ?_⟩
  · rw [List.append_assoc, hreads, (statement_puts s).append, List.nil_append,
      read_lines_text, Reading.and_then_assoc]
  · exact misses_append.mpr ⟨h.misses rs shape _, statement_misses s trivial⟩
  · intro c hc
    rcases List.mem_append.mp hc with hc | hc
    · exact h.flat c hc
    · rw [List.mem_singleton.mp hc]
      exact statement_flat s ctx

theorem Front.gives (h : Front manner ctx front fs) : (readLines manner ctx front).Gives fs := by
  obtain ⟨r, hr, hreads⟩ := h.reads
  have hfront := hreads []
  rw [List.append_nil, read_lines_nil, Reading.and_then_empty] at hfront
  rw [hfront]
  exact hr

end Front

end Melody.Command
