import Melody.Proofs.Cleaning

/-!
# Texts put on one line

Programs are read without comments and on one line. A character that is no blank and opens no
comment divides this line: what stands behind it comes out the same whatever stands before it, as
long as no comment from there reaches it. A run of blanks between two such characters stays, or is
one blank if the line ends in it.
-/

set_option autoImplicit false

namespace Melody.Text

def oneLine (cs : List Char) : List Char :=
  join [' '] (((lines cs).map strip).filter fun l => !l.isEmpty)

def oneGap (gap : List Char) : List Char :=
  if '\n' ∈ gap then [' '] else gap

theorem blank_of_one_gap {gap : List Char} (h : ∀ c ∈ gap, isBlank c) :
    ∀ c ∈ oneGap gap, isBlank c := by
  unfold oneGap
  split
  · simp [isBlank]
  · exact h

theorem one_gap_nil_iff {gap : List Char} : oneGap gap = [] ↔ gap = [] := by
  unfold oneGap
  split
  · rename_i hbreak
    simp [List.ne_nil_of_mem hbreak]
  · rfl

theorem solid_not_break {c : Char} (h : isBlank c = false) : c ≠ '\n' := by
  rintro rfl
  cases h

theorem join_ne_nil {sep piece : List Char} (h : piece ≠ []) {rest : List (List Char)} :
    join sep (piece :: rest) ≠ [] := by
  cases rest with
  | nil => exact h
  | cons next rest => simp [join, h]

theorem join_front (sep front piece : List Char) (rest : List (List Char)) :
    join sep ((front ++ piece) :: rest) = front ++ join sep (piece :: rest) := by
  cases rest with
  | nil => rfl
  | cons next rest => simp [join]

theorem lines_front {front : List Char} (h : '\n' ∉ front) (cs : List Char) :
    lines (front ++ cs) = (lines cs).modifyHead (front ++ ·) := by
  induction front with
  | nil =>
    cases hlines : lines cs with
    | nil => exact absurd hlines (split_on_ne_nil '\n' cs)
    | cons l ls => simp [hlines]
  | cons c front ih =>
    obtain ⟨hc, hfront⟩ := not_or.mp (mt List.mem_cons.mpr h)
    rw [List.cons_append, lines, splitOn, if_neg (Ne.symm hc)]
    have hrest := ih hfront
    rw [lines] at hrest
    rw [hrest]
    cases hlines : lines cs with
    | nil => exact absurd hlines (split_on_ne_nil '\n' cs)
    | cons l ls => rfl

theorem strip_solid {c d : Char} (hc : isBlank c = false) (hd : isBlank d = false)
    (mid cs : List Char) : strip (c :: (mid ++ d :: cs)) = c :: (mid ++ strip (d :: cs)) := by
  have hstart (e : Char) (he : isBlank e = false) (es : List Char) :
      (e :: es).dropWhile isBlank = e :: es := List.dropWhile_cons_of_neg (by simp [he])
  have hback : (d :: cs).reverse.dropWhile isBlank ≠ [] := by
    intro hnil
    have hblank := List.dropWhile_eq_nil_iff.mp hnil d (by simp)
    rw [hd] at hblank
    cases hblank
  rw [strip, strip, hstart c hc, hstart d hd,
    show c :: (mid ++ d :: cs) = (c :: mid) ++ (d :: cs) from rfl, List.reverse_append,
    List.dropWhile_append, if_neg (by simpa using hback), List.reverse_append, List.reverse_reverse]
  rfl

theorem strip_nonempty {c : Char} (hc : isBlank c = false) (cs : List Char) :
    (strip (c :: cs)).isEmpty = false := by
  have hback : (c :: cs).reverse.dropWhile isBlank ≠ [] := by
    intro hnil
    have hblank := List.dropWhile_eq_nil_iff.mp hnil c (by simp)
    rw [hc] at hblank
    cases hblank
  rw [strip, List.dropWhile_cons_of_neg (by simp [hc])]
  simpa using hback

theorem one_line_blank {b : Char} (hb : isBlank b) (cs : List Char) :
    oneLine (b :: cs) = oneLine cs := by
  by_cases hbreak : b = '\n'
  · have hlines : lines (b :: cs) = [] :: lines cs := by rw [lines, splitOn, if_pos hbreak]; rfl
    rw [oneLine, hlines]
    rfl
  · have hlines := lines_front (show '\n' ∉ [b] by simpa using Ne.symm hbreak) cs
    rw [oneLine, oneLine, show b :: cs = [b] ++ cs from rfl, hlines]
    cases lines cs with
    | nil => rfl
    | cons l ls =>
      rw [List.modifyHead_cons, List.map_cons, List.singleton_append, strip_blank_cons hb,
        List.map_cons]

theorem one_line_gap {gap : List Char} (h : ∀ c ∈ gap, isBlank c) (cs : List Char) :
    oneLine (gap ++ cs) = oneLine cs := by
  induction gap with
  | nil => rfl
  | cons b gap ih =>
    rw [List.cons_append, one_line_blank (h b List.mem_cons_self)]
    exact ih fun c hc => h c (List.mem_cons_of_mem b hc)

theorem strip_end {c : Char} (hc : isBlank c = false) {gap : List Char} (h : ∀ b ∈ gap, isBlank b) :
    strip (c :: gap) = [c] := by
  have hcore : Tight [c] := ⟨stops_cons hc, stops_cons hc⟩
  exact tight_strip (show ∀ b ∈ [], isBlank b by simp) hcore h

theorem one_line_start (front : List Char) {d : Char} (hfront : '\n' ∉ front)
    (hd : isBlank d = false) (cs : List Char) :
    ∃ l ls, lines (front ++ d :: cs) = (front ++ d :: l) :: ls ∧
      oneLine (d :: cs) =
        join [' '] (strip (d :: l) :: (ls.map strip).filter fun l => !l.isEmpty) := by
  cases hlines : lines cs with
  | nil => exact absurd hlines (split_on_ne_nil '\n' cs)
  | cons l ls =>
    have hline : lines (d :: cs) = (d :: l) :: ls := by
      rw [show d :: cs = [d] ++ cs from rfl,
        lines_front (by simpa using (solid_not_break hd).symm), hlines]
      rfl
    refine ⟨l, ls, ?_, ?_⟩
    · rw [lines_front hfront, hline]
      rfl
    · rw [oneLine, hline, List.map_cons, List.filter_cons_of_pos (by simp [strip_nonempty hd l])]

theorem one_line_ne_nil {d : Char} (hd : isBlank d = false) (cs : List Char) :
    oneLine (d :: cs) ≠ [] := by
  obtain ⟨l, ls, -, hline⟩ := one_line_start [] (by simp) hd cs
  have hfirst : strip (d :: l) ≠ [] := by
    have := strip_nonempty hd l
    rintro hnil
    rw [hnil] at this
    cases this
  rw [hline]
  exact join_ne_nil hfirst

/-- Behind the end of a line stands one blank and the other lines, or nothing. -/
theorem one_line_break {c : Char} (hc : isBlank c = false) {gap : List Char}
    (h : ∀ b ∈ gap, isBlank b) (hbreak : '\n' ∉ gap) (cs : List Char) :
    oneLine (c :: (gap ++ '\n' :: cs)) =
      c :: (if oneLine cs = [] then [] else ' ' :: oneLine cs) := by
  have hline : '\n' ∉ c :: gap := by
    rw [List.mem_cons, not_or]
    exact ⟨(solid_not_break hc).symm, hbreak⟩
  have hlines : lines (c :: (gap ++ '\n' :: cs)) = (c :: gap) :: lines cs := by
    rw [lines, ← List.cons_append, split_on_append, split_on_none hline]
    rfl
  rw [oneLine, hlines, List.map_cons, strip_end hc h, List.filter_cons_of_pos rfl]
  unfold oneLine
  cases hrest : ((lines cs).map strip).filter fun l => !l.isEmpty with
  | nil => rfl
  | cons next rest =>
    have hnext : next ≠ [] := by
      have hmem := (List.mem_filter.mp (hrest ▸ List.mem_cons_self)).2
      rintro rfl
      cases hmem
    rw [if_neg (join_ne_nil hnext)]
    rfl

theorem one_line_end {c : Char} (hc : isBlank c = false) {gap : List Char}
    (h : ∀ b ∈ gap, isBlank b) : oneLine (c :: gap) = [c] := by
  by_cases hbreak : '\n' ∈ gap
  · obtain ⟨first, rest, rfl, hfirst⟩ := List.eq_append_cons_of_mem hbreak
    have hblank : ∀ b ∈ rest, isBlank b := fun b hb => h b (by simp [hb])
    have hrest : oneLine rest = [] := by
      have hgap := one_line_gap hblank []
      rwa [List.append_nil] at hgap
    rw [one_line_break hc (fun b hb => h b (by simp [hb])) hfirst, if_pos hrest]
  · have hline : '\n' ∉ c :: gap := by
      rw [List.mem_cons, not_or]
      exact ⟨(solid_not_break hc).symm, hbreak⟩
    rw [oneLine, lines, split_on_none hline, List.map_singleton, strip_end hc h]
    rfl

/-- From one solid character to the next. -/
theorem one_line_step {c d : Char} (hc : isBlank c = false) (hd : isBlank d = false)
    {gap : List Char} (h : ∀ b ∈ gap, isBlank b) (cs : List Char) :
    oneLine (c :: (gap ++ d :: cs)) = c :: (oneGap gap ++ oneLine (d :: cs)) := by
  by_cases hbreak : '\n' ∈ gap
  · rw [oneGap, if_pos hbreak]
    obtain ⟨first, rest, rfl, hfirst⟩ := List.eq_append_cons_of_mem hbreak
    have hblank : ∀ b ∈ rest, isBlank b := fun b hb => h b (by simp [hb])
    rw [List.append_assoc, List.cons_append,
      one_line_break hc (fun b hb => h b (by simp [hb])) hfirst, one_line_gap hblank,
      if_neg (one_line_ne_nil hd cs)]
    rfl
  · have hfront : '\n' ∉ c :: gap := by
      rw [List.mem_cons, not_or]
      exact ⟨(solid_not_break hc).symm, hbreak⟩
    obtain ⟨l, ls, hlines, hline⟩ := one_line_start (c :: gap) hfront hd cs
    rw [oneGap, if_neg hbreak, hline, ← List.cons_append, oneLine, hlines, List.map_cons,
      List.cons_append, strip_solid hc hd, List.filter_cons_of_pos rfl, ← List.cons_append,
      join_front, List.cons_append]

def trail (cs : List Char) : List Char :=
  (oneLine ('}' :: cs)).tail

/-- A text is blank, or a first character stands behind blanks. -/
theorem blank_or_solid (cs : List Char) :
    (∀ c ∈ cs, isBlank c) ∨
      ∃ gap d rest, cs = gap ++ d :: rest ∧ (∀ c ∈ gap, isBlank c) ∧ isBlank d = false := by
  cases hrest : cs.dropWhile isBlank with
  | nil => exact .inl (List.dropWhile_eq_nil_iff.mp hrest)
  | cons d rest =>
    refine .inr ⟨cs.takeWhile isBlank, d, rest, ?_, fun c hc => List.mem_takeWhile_imp hc, ?_⟩
    · rw [← hrest, List.takeWhile_append_dropWhile]
    · have hne : cs.dropWhile isBlank ≠ [] := by simp [hrest]
      have hhead := List.head_dropWhile_not isBlank hne
      simpa [hrest] using hhead

theorem one_line_cons {c : Char} (hc : isBlank c = false) (cs : List Char) :
    oneLine (c :: cs) = c :: trail cs := by
  have hbrace : isBlank '}' = false := by decide
  rcases blank_or_solid cs with h | ⟨gap, d, rest, rfl, hgap, hd⟩
  · rw [trail, one_line_end hc h, one_line_end hbrace h]
    rfl
  · rw [trail, one_line_step hc hd hgap, one_line_step hbrace hd hgap]
    rfl

theorem trail_end {gap : List Char} (h : ∀ b ∈ gap, isBlank b) : trail gap = [] := by
  rw [trail, one_line_end (by decide) h]
  rfl

theorem trail_nil : trail [] = [] :=
  trail_end (by simp)

theorem trail_step {d : Char} (hd : isBlank d = false) {gap : List Char} (h : ∀ b ∈ gap, isBlank b)
    (cs : List Char) : trail (gap ++ d :: cs) = oneGap gap ++ d :: trail cs := by
  rw [trail, one_line_step (by decide) hd h, List.tail_cons, one_line_cons hd]

/-- The induction goes from one solid character to the next. -/
theorem trail_append {c : Char} (hc : isBlank c = false) (a cs : List Char) :
    trail (a ++ c :: cs) = trail (a ++ [c]) ++ trail cs := by
  induction hlength : a.length using Nat.strong_induction_on generalizing a with
  | _ n ih =>
    rcases blank_or_solid a with h | ⟨gap, d, rest, rfl, hgap, hd⟩
    · rw [trail_step hc h, trail_step hc h, trail_nil, List.append_assoc]
      rfl
    · have hrest := ih rest.length (by rw [← hlength]; simp; omega) rest rfl
      rw [List.append_assoc, List.append_assoc, List.cons_append, List.cons_append,
        trail_step hd hgap,
        trail_step hd hgap, hrest, List.append_assoc, List.cons_append]

/-- A solid character divides the line. -/
theorem one_line_append {c : Char} (hc : isBlank c = false) (a cs : List Char) :
    oneLine (a ++ c :: cs) = oneLine (a ++ [c]) ++ trail cs := by
  rcases blank_or_solid a with h | ⟨gap, d, rest, rfl, hgap, hd⟩
  · rw [one_line_gap h, one_line_gap h, one_line_cons hc, one_line_cons hc,
      trail_nil]
    rfl
  · rw [List.append_assoc, List.append_assoc, one_line_gap hgap, one_line_gap hgap,
      List.cons_append,
      List.cons_append, one_line_cons hd, one_line_cons hd, trail_append hc, List.cons_append]

theorem trail_last {c : Char} (hc : isBlank c = false) (a : List Char) :
    ∃ front, trail (a ++ [c]) = front ++ [c] := by
  induction hlength : a.length using Nat.strong_induction_on generalizing a with
  | _ n ih =>
    rcases blank_or_solid a with h | ⟨gap, d, rest, rfl, hgap, hd⟩
    · exact ⟨oneGap a, by rw [trail_step hc h, trail_nil]⟩
    · obtain ⟨front, hfront⟩ := ih rest.length (by rw [← hlength]; simp; omega) rest rfl
      refine ⟨oneGap gap ++ d :: front, ?_⟩
      rw [List.append_assoc, List.cons_append, trail_step hd hgap, hfront, List.append_assoc,
        List.cons_append]

theorem one_line_last {c : Char} (hc : isBlank c = false) (a : List Char) :
    ∃ front, oneLine (a ++ [c]) = front ++ [c] := by
  rcases blank_or_solid a with h | ⟨gap, d, rest, rfl, hgap, hd⟩
  · exact ⟨[], by rw [one_line_gap h, one_line_cons hc, trail_nil]; rfl⟩
  · obtain ⟨front, hfront⟩ := trail_last hc rest
    refine ⟨d :: front, ?_⟩
    rw [List.append_assoc, one_line_gap hgap, List.cons_append, one_line_cons hd, hfront]
    rfl

end Melody.Text

namespace Melody.Source

open Melody.Text

def withoutFrom (fresh : Bool) (cs : List Char) : List Char :=
  match lines (dropBlockComments .line cs) with
  | [] => []
  | l :: ls => join ['\n'] (beforeLineComment fresh l :: ls.map dropLineComment)

theorem without_from_start (cs : List Char) : withoutComments cs = withoutFrom true cs := by
  unfold withoutFrom withoutComments
  cases lines (dropBlockComments .line cs) with
  | nil => rfl
  | cons l ls => rfl

theorem without_from_cons {fresh : Bool} {c : Char} (hslash : c ≠ '\\')
    (hsign : (fresh && c = '#') = false) (cs : List Char) :
    withoutFrom fresh (c :: cs) = c :: withoutFrom (isBlank c) cs := by
  have hdrop : dropBlockComments .line (c :: cs) = c :: dropBlockComments .line cs :=
    drop_other fun _ h _ => hslash h
  unfold withoutFrom
  rw [hdrop]
  cases hlines : lines (dropBlockComments .line cs) with
  | nil => exact absurd hlines (split_on_ne_nil '\n' _)
  | cons l ls =>
    by_cases hbreak : c = '\n'
    · have hfirst : lines (c :: dropBlockComments .line cs) = [] :: l :: ls := by
        rw [lines, splitOn, if_pos hbreak, ← lines, hlines]
      subst hbreak
      rw [hfirst]
      rfl
    · have hfirst : lines (c :: dropBlockComments .line cs) = (c :: l) :: ls := by
        rw [show c :: dropBlockComments .line cs = [c] ++ dropBlockComments .line cs from rfl,
          lines_front (by simpa using Ne.symm hbreak), hlines]
        rfl
      rw [hfirst]
      dsimp only
      rw [beforeLineComment, hsign, if_neg (by simp)]
      exact join_front ['\n'] [c] _ _

structure Solid (c : Char) : Prop where
  blank : isBlank c = false
  slash : c ≠ '\\'
  sign : c ≠ '#'

instance (c : Char) : Decidable (Solid c) :=
  decidable_of_iff (isBlank c = false ∧ c ≠ '\\' ∧ c ≠ '#')
    ⟨fun h => ⟨h.1, h.2.1, h.2.2⟩, fun h => ⟨h.blank, h.slash, h.sign⟩⟩

theorem without_from_solid {c : Char} (hc : Solid c) (fresh : Bool) (cs : List Char) :
    withoutFrom fresh (c :: cs) = c :: withoutFrom false cs := by
  rw [without_from_cons hc.slash (by simp [hc.sign]), hc.blank]

def EndsBefore (c : Char) (cs : List Char) : Prop :=
  ∀ rest, withoutComments (cs ++ c :: rest) = withoutComments cs ++ withoutComments (c :: rest)

def Plain (cs : List Char) : Prop :=
  ∀ c ∈ cs, c ≠ '\\' ∧ c ≠ '#'

instance (cs : List Char) : Decidable (Plain cs) :=
  inferInstanceAs (Decidable (∀ c ∈ cs, c ≠ '\\' ∧ c ≠ '#'))

theorem plain_gap {gap : List Char} (h : ∀ b ∈ gap, isBlank b) : Plain gap := by
  intro b hb
  constructor <;>
  · rintro rfl
    cases h _ hb

theorem without_from_plain {cs : List Char} (h : Plain cs) {c : Char} (hc : Solid c) (fresh : Bool)
    (rest : List Char) :
    withoutFrom fresh (cs ++ c :: rest) = cs ++ c :: withoutFrom false rest := by
  induction cs generalizing fresh with
  | nil => exact without_from_solid hc fresh rest
  | cons d cs ih =>
    obtain ⟨hslash, hsign⟩ := h d List.mem_cons_self
    rw [List.cons_append, without_from_cons hslash (by simp [hsign]),
      ih fun e he => h e (List.mem_cons_of_mem d he), List.cons_append]

theorem without_plain_whole {cs : List Char} (h : Plain cs) : withoutComments cs = cs := by
  have hfrom (fresh : Bool) : withoutFrom fresh cs = cs := by
    induction cs generalizing fresh with
    | nil =>
      cases fresh <;>
        simp [withoutFrom, dropBlockComments, lines, splitOn, join, beforeLineComment]
    | cons d cs ih =>
      obtain ⟨hslash, hsign⟩ := h d List.mem_cons_self
      rw [without_from_cons hslash (by simp [hsign]),
        ih fun e he => h e (List.mem_cons_of_mem d he)]
  rw [without_from_start, hfrom]

theorem plain_ends {cs : List Char} (h : Plain cs) {c : Char} (hc : Solid c) : EndsBefore c cs := by
  intro rest
  rw [without_plain_whole h, without_from_start, without_from_start, without_from_plain h hc,
    without_from_solid hc]

end Melody.Source

namespace Melody.Program

open Melody.Text Melody.Source

theorem flatten_eq (cs : List Char) : flatten cs = oneLine (withoutComments cs) := by
  rw [oneLine, lines_without, List.map_map]
  rfl

def behind (cs : List Char) : List Char :=
  trail (withoutFrom false cs)

theorem flatten_cons {c : Char} (hc : Solid c) (cs : List Char) :
    flatten (c :: cs) = c :: behind cs := by
  rw [flatten_eq, without_from_start, without_from_solid hc, one_line_cons hc.blank, behind]

theorem without_single {c : Char} (hc : Solid c) : withoutComments [c] = [c] := by
  apply without_plain_whole
  intro d hd
  obtain rfl := List.mem_singleton.mp hd
  exact ⟨hc.slash, hc.sign⟩

section Divide

variable {c : Char} (hc : Solid c) {a : List Char} (ha : EndsBefore c a)

include hc ha

/-- A solid character that no comment reaches divides a text. -/
theorem flatten_append (cs : List Char) :
    flatten (a ++ c :: cs) = flatten (a ++ [c]) ++ behind cs := by
  rw [flatten_eq, flatten_eq, ha, ha, without_single hc, without_from_start (c :: cs),
    without_from_solid hc, one_line_append hc.blank, behind]

theorem flatten_last : ∃ front, flatten (a ++ [c]) = front ++ [c] := by
  rw [flatten_eq, ha, without_single hc]
  exact one_line_last hc.blank _

end Divide

theorem flatten_gap {gap : List Char} (h : ∀ b ∈ gap, isBlank b) {c : Char} (hc : Solid c)
    (cs : List Char) : flatten (gap ++ c :: cs) = c :: behind cs := by
  rw [flatten_eq, without_from_start, without_from_plain (plain_gap h) hc, one_line_gap h,
    one_line_cons hc.blank, behind]

theorem behind_step {gap : List Char} (h : ∀ b ∈ gap, isBlank b) {c : Char} (hc : Solid c)
    (cs : List Char) : behind (gap ++ c :: cs) = oneGap gap ++ c :: behind cs := by
  rw [behind, without_from_plain (plain_gap h) hc, trail_step hc.blank h, behind]

end Melody.Program
