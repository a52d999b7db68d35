import Melody.Lint.Line
import Melody.Proofs.Comments

/-!
# Programs without their comments

Comments are dropped from a program as a whole or from each of its lines alone, and the loader drops
them in its own way, in which only lines with a number sign are looked at word by word. A block
comment within the reach of a line ends before the line does, so it makes no difference who drops
them: all that look at a program see the same lines.
-/

set_option autoImplicit false

namespace Melody.Text

theorem join_cons_cons (sep piece next : List Char) (rest : List (List Char)) :
    join sep (piece :: next :: rest) = piece ++ sep ++ join sep (next :: rest) :=
  rfl

theorem join_split_on (sep : Char) (cs : List Char) : join [sep] (splitOn sep cs) = cs := by
  induction cs with
  | nil => rfl
  | cons c cs ih =>
    rw [splitOn]
    cases hpieces : splitOn sep cs with
    | nil => exact absurd hpieces (split_on_ne_nil sep cs)
    | cons piece rest =>
      rw [hpieces] at ih
      by_cases hc : c = sep
      · rw [if_pos hc, join_cons_cons, ih, hc]
        rfl
      · rw [if_neg hc, ← ih]
        cases rest with
        | nil => rfl
        | cons next rest => rfl

theorem split_on_join {sep : Char} {pieces : List (List Char)} (hne : pieces ≠ [])
    (h : ∀ piece ∈ pieces, sep ∉ piece) : splitOn sep (join [sep] pieces) = pieces := by
  induction pieces with
  | nil => exact absurd rfl hne
  | cons piece rest ih =>
    have hpiece := split_on_none (h piece List.mem_cons_self)
    cases rest with
    | nil => exact hpiece
    | cons next rest =>
      have hrest := ih (by simp) fun other hother => h other (List.mem_cons_of_mem piece hother)
      rw [join_cons_cons, List.append_assoc, List.singleton_append, split_on_append, hpiece, hrest,
        List.singleton_append]

theorem split_on_lacks {sep : Char} {cs piece : List Char} (h : piece ∈ splitOn sep cs) :
    sep ∉ piece := by
  induction cs generalizing piece with
  | nil =>
    obtain rfl : piece = [] := by simpa [splitOn] using h
    simp
  | cons c cs ih =>
    rw [splitOn] at h
    by_cases hc : c = sep
    · rw [if_pos hc] at h
      rcases List.mem_cons.mp h with rfl | h
      · simp
      · exact ih h
    · rw [if_neg hc] at h
      cases hpieces : splitOn sep cs with
      | nil => exact absurd hpieces (split_on_ne_nil sep cs)
      | cons first rest =>
        rw [hpieces] at h ih
        rcases List.mem_cons.mp h with rfl | h
        · have hfirst := ih List.mem_cons_self
          simp [Ne.symm hc, hfirst]
        · exact ih (List.mem_cons_of_mem first h)

end Melody.Text

namespace Melody.Source

open Melody.Text

theorem after_close_suffix {reach : Reach} {cs rest : List Char}
    (h : afterClose? reach cs = some rest) : rest <:+ cs := by
  fun_induction afterClose? reach cs with
  | case1 => cases h
  | case2 tail =>
    cases h
    exact ⟨['_', '/'], rfl⟩
  | case3 => cases h
  | case4 c cs _ _ ih => exact (ih h).trans (List.suffix_cons c cs)

theorem drop_sublist (reach : Reach) (cs : List Char) :
    (dropBlockComments reach cs).Sublist cs := by
  fun_induction dropBlockComments reach cs with
  | case1 => exact List.Sublist.slnil
  | case2 body rest hrest ih =>
    have hbody := ih.trans (after_close_suffix hrest).sublist
    exact (hbody.cons '_').cons '\\'
  | case3 body _ ih => exact ih.cons_cons '\\'
  | case4 c cs _ ih => exact ih.cons_cons c

/-- The end of a comment is looked for on the comment's own line. -/
theorem after_close_break {line : List Char} (h : '\n' ∉ line) (more : List Char) :
    afterClose? .line (line ++ '\n' :: more) =
      (afterClose? .line line).map (· ++ '\n' :: more) := by
  fun_induction afterClose? .line line with
  | case1 => rfl
  | case2 tail => rfl
  | case3 c cs _ hc =>
    simp only [decide_true, Bool.true_and, decide_eq_true_eq] at hc
    exact absurd List.mem_cons_self (hc ▸ h)
  | case4 c cs hopen hc ih =>
    have hcs : '\n' ∉ cs := fun hmem => h (List.mem_cons_of_mem c hmem)
    have hopen' : ∀ tail, c = '_' → cs ++ '\n' :: more = '/' :: tail → False := by
      intro tail hunder hslash
      cases cs with
      | nil => simp at hslash
      | cons d cs =>
        obtain rfl : d = '/' := (List.cons.inj hslash).1
        exact hopen cs hunder rfl
    rw [List.cons_append, afterClose?.eq_3 _ _ _ hopen', if_neg hc, ih hcs]

theorem drop_break {line : List Char} (h : '\n' ∉ line) (more : List Char) :
    dropBlockComments .line (line ++ '\n' :: more) =
      dropBlockComments .line line ++ '\n' :: dropBlockComments .line more := by
  fun_induction dropBlockComments .line line with
  | case1 => exact drop_other (by simp)
  | case2 body rest hrest ih =>
    have hbody : '\n' ∉ body := fun hmem => h (by simp [hmem])
    have hclose := after_close_break hbody more
    rw [hrest, Option.map_some] at hclose
    rw [List.cons_append, List.cons_append, drop_comment hclose]
    exact ih fun hmem => hbody ((after_close_suffix hrest).subset hmem)
  | case3 body hnone ih =>
    have hbody : '\n' ∉ body := fun hmem => h (by simp [hmem])
    have hclose := after_close_break hbody more
    rw [hnone, Option.map_none] at hclose
    rw [List.cons_append, List.cons_append, drop_unclosed hclose, List.cons_append]
    exact congrArg ('\\' :: ·) (ih (by simpa using hbody))
  | case4 c cs hopen ih =>
    have hopen' : ∀ tail, c = '\\' → cs ++ '\n' :: more = '_' :: tail → False := by
      intro tail hslash hunder
      cases cs with
      | nil => simp at hunder
      | cons d cs =>
        obtain rfl : d = '_' := (List.cons.inj hunder).1
        exact hopen cs hslash rfl
    rw [List.cons_append, drop_other hopen', ih fun hmem => h (List.mem_cons_of_mem c hmem),
      List.cons_append]

theorem drop_join {ls : List (List Char)} (h : ∀ l ∈ ls, '\n' ∉ l) :
    dropBlockComments .line (join ['\n'] ls) =
      join ['\n'] (ls.map (dropBlockComments .line)) := by
  induction ls with
  | nil => simp [join, dropBlockComments]
  | cons line rest ih =>
    cases rest with
    | nil => rfl
    | cons next rest =>
      have hrest := ih fun l hl => h l (List.mem_cons_of_mem line hl)
      rw [join_cons_cons, List.append_assoc, List.singleton_append,
        drop_break (h line List.mem_cons_self), hrest]
      simp only [List.map_cons, join_cons_cons, List.append_assoc, List.singleton_append]

/-- The lines of the text without block comments are the lines without block comments. -/
theorem lines_drop (cs : List Char) :
    lines (dropBlockComments .line cs) = (lines cs).map (dropBlockComments .line) := by
  have hlines : ∀ l ∈ lines cs, '\n' ∉ l := fun _ hl => split_on_lacks hl
  have hdropped : ∀ l ∈ (lines cs).map (dropBlockComments .line), '\n' ∉ l := by
    intro l hl hmem
    obtain ⟨line, hline, rfl⟩ := List.mem_map.mp hl
    exact hlines line hline ((drop_sublist .line line).subset hmem)
  calc
    lines (dropBlockComments .line cs)
      = lines (dropBlockComments .line (join ['\n'] (lines cs))) := by
        rw [show join ['\n'] (lines cs) = cs from join_split_on '\n' cs]
    _ = lines (join ['\n'] ((lines cs).map (dropBlockComments .line))) := by rw [drop_join hlines]
    _ = (lines cs).map (dropBlockComments .line) :=
        split_on_join (by simp [lines, split_on_ne_nil]) hdropped

def pieces : List Char → List (List Char)
  | [] => []
  | c :: cs =>
    (c :: cs.takeWhile fun d => isBlank d == isBlank c) ::
      pieces (cs.dropWhile fun d => isBlank d == isBlank c)
termination_by cs => cs.length
decreasing_by
  have := (List.dropWhile_sublist (l := cs) fun d => isBlank d == isBlank c).length_le
  simp only [List.length_cons]
  omega

def beforeSign (line : List Char) : List Char :=
  ((pieces line).takeWhile fun piece => piece.head? != some '#').flatten

theorem before_comment_front (fresh : Bool) (line : List Char) :
    beforeLineComment fresh line <+: line := by
  induction line generalizing fresh with
  | nil => exact List.prefix_refl []
  | cons c cs ih =>
    rw [beforeLineComment]
    by_cases hc : (fresh && c = '#') = true
    · rw [if_pos hc]
      exact List.nil_prefix
    · rw [if_neg hc]
      exact (List.prefix_cons_inj c).mpr (ih (isBlank c))

/-- Within a word no comment starts, and blanks are no number signs. -/
theorem before_comment_piece {blank : Bool} {piece : List Char}
    (h : ∀ c ∈ piece, isBlank c = blank) (rest : List Char) :
    beforeLineComment blank (piece ++ rest) = piece ++ beforeLineComment blank rest := by
  induction piece with
  | nil => rfl
  | cons c piece ih =>
    have hc := h c List.mem_cons_self
    have hsign : ¬ (blank && c = '#') = true := by
      intro hstart
      obtain ⟨hblank, hsign⟩ : blank = true ∧ c = '#' := by simpa using hstart
      rw [hblank, hsign] at hc
      exact absurd hc (by decide)
    rw [List.cons_append, beforeLineComment, if_neg hsign, hc,
      ih fun d hd => h d (List.mem_cons_of_mem c hd), List.cons_append]

/-- Behind a piece of either kind a new word may start. -/
theorem before_comment_fresh {blank : Bool} {rest : List Char}
    (h : ∀ c ∈ rest.head?, isBlank c ≠ blank) :
    beforeLineComment blank rest = beforeLineComment true rest := by
  cases rest with
  | nil => rfl
  | cons c rest =>
    cases blank with
    | true => rfl
    | false =>
      have hblank : isBlank c = true := by simpa using h c rfl
      have hsign : c ≠ '#' := by
        rintro rfl
        exact absurd hblank (by decide)
      simp [beforeLineComment, hsign]

theorem drop_line_comment_eq (line : List Char) : dropLineComment line = beforeSign line := by
  unfold dropLineComment beforeSign
  fun_induction pieces line with
  | case1 => rfl
  | case2 c cs ih =>
    by_cases hc : c = '#'
    · simp [beforeLineComment, hc]
    · have hpiece : ∀ d ∈ cs.takeWhile fun d => isBlank d == isBlank c, isBlank d = isBlank c :=
        fun d hd => by simpa using List.mem_takeWhile_imp hd
      have hrest : ∀ d ∈ (cs.dropWhile fun d => isBlank d == isBlank c).head?,
          isBlank d ≠ isBlank c := by
        intro d hd
        have := List.head?_dropWhile_not (fun d => isBlank d == isBlank c) cs
        rw [Option.mem_def.mp hd] at this
        simpa using this
      have hsplit := List.takeWhile_append_dropWhile
        (p := fun d => isBlank d == isBlank c) (l := cs)
      rw [beforeLineComment, if_neg (by simp [hc])]
      conv => lhs; rw [← hsplit]
      rw [before_comment_piece hpiece, before_comment_fresh hrest, ih, List.takeWhile_cons_of_pos
        (by simp [hc]), List.flatten_cons, List.cons_append]

theorem drop_line_comment_plain {line : List Char} (h : '#' ∉ line) :
    dropLineComment line = line := by
  have hbefore (fresh : Bool) : beforeLineComment fresh line = line := by
    induction line generalizing fresh with
    | nil => rfl
    | cons c cs ih =>
      obtain ⟨hc, hcs⟩ := not_or.mp (mt List.mem_cons.mpr h)
      rw [beforeLineComment, if_neg (by simp [Ne.symm hc]), ih hcs]
  exact hbefore true

theorem lines_without (cs : List Char) :
    lines (withoutComments cs) = (lines (dropBlockComments .line cs)).map dropLineComment := by
  apply split_on_join
  · simp [lines, split_on_ne_nil]
  · intro l hl hmem
    obtain ⟨line, hline, rfl⟩ := List.mem_map.mp hl
    exact split_on_lacks hline ((before_comment_front true line).subset hmem)

theorem without_line {line : List Char} (h : '\n' ∉ line) :
    withoutComments line = dropLineComment (dropBlockComments .line line) := by
  have hdropped : '\n' ∉ dropBlockComments .line line :=
    fun hmem => h ((drop_sublist .line line).subset hmem)
  rw [withoutComments, lines, split_on_none hdropped]
  rfl

theorem lines_without_each (cs : List Char) :
    lines (withoutComments cs) = (lines cs).map withoutComments := by
  rw [lines_without, lines_drop, List.map_map]
  apply List.map_congr_left
  intro line hline
  exact (without_line (split_on_lacks hline)).symm

def cleanedLine (line : List Char) : List Char :=
  strip (if '#' ∈ line then beforeSign line else line)

theorem cleaned_line_eq (line : List Char) : cleanedLine line = strip (dropLineComment line) := by
  unfold cleanedLine
  by_cases h : '#' ∈ line
  · rw [if_pos h, drop_line_comment_eq]
  · rw [if_neg h, drop_line_comment_plain h]

end Melody.Source

namespace Melody.Program

open Melody.Text
open Melody.Source (withoutComments dropBlockComments beforeSign cleanedLine)

/-- Dropping comments from a whole program and from each of its lines gives the same lines, as many
as the program has: a line loses its block comments and then its words from the first one on that
starts with a number sign. The rules for lines look at these lines without the blanks around them,
and the loader, in its own way, gets the same lines, leaves out those without content and puts one
blank between the others. -/
theorem cleaned_program_unique (cs : List Char) :
    lines (withoutComments cs) = (lines cs).map withoutComments ∧
      (lines (withoutComments cs)).length = (lines cs).length ∧
      lines (withoutComments cs) = (lines (dropBlockComments .line cs)).map beforeSign ∧
      (lines cs).map Lint.clean = (lines (withoutComments cs)).map strip ∧
      flatten cs = join [' ']
        (((lines (dropBlockComments .line cs)).map cleanedLine).filter fun l => !l.isEmpty) ∧
      flatten cs = join [' ']
        (((lines (withoutComments cs)).map strip).filter fun l => !l.isEmpty) := by
  have heach := Source.lines_without_each cs
  have hsigns : Source.dropLineComment = beforeSign := funext Source.drop_line_comment_eq
  have hcleaned : cleanedLine = fun l => strip (Source.dropLineComment l) :=
    funext Source.cleaned_line_eq
  refine ⟨heach, ?_, ?_, ?_, ?_, ?_⟩
  · rw [heach, List.length_map]
  · rw [Source.lines_without, hsigns]
  · rw [heach, List.map_map]
    rfl
  · rw [hcleaned]
    rfl
  · rw [Source.lines_without, List.map_map]
    rfl

end Melody.Program
