import Melody.Proofs.Acceptance
import Melody.Proofs.Blocks
import Melody.Proofs.Lines

/-!
# Block comments

The check of tokens removes block comments that run over several lines, and the loader only those
that end on their line. `blockComments` gives the insides of the comments that the check removes.
A text is loaded like the text without its comments if none of them holds a line end, and for
comments of which one does there is a text that is not.
-/

set_option autoImplicit false

namespace Melody.Source

open Melody.Text

def opener : List Char := ['\\', '_']

def comment (inside tail : List Char) : List Char :=
  '\\' :: '_' :: (inside ++ '_' :: '/' :: tail)

def beforeClose : List Char → List Char
  | [] => []
  | '_' :: '/' :: _ => []
  | c :: cs => c :: beforeClose cs

def blockComments : List Char → List (List Char)
  | [] => []
  | '\\' :: '_' :: body =>
    match _h : afterClose? .file body with
    | some rest => beforeClose body :: blockComments rest
    | none => blockComments ('_' :: body)
  | _ :: cs => blockComments cs
termination_by cs => cs.length
decreasing_by
  · have := length_of_afterClose? .file body _h
    simp only [List.length_cons] at *
    omega
  · simp
  · simp

theorem after_close_cons {c : Char} {cs : List Char}
    (h : ∀ tail, c = '_' → cs = '/' :: tail → False) :
    afterClose? .file (c :: cs) = afterClose? .file cs := by
  rw [afterClose?.eq_3 _ _ _ h]
  rfl

/-- Whether a comment ends on its line is decided by what stands in it. -/
theorem after_close_line (body : List Char) :
    afterClose? .line body = if '\n' ∈ beforeClose body then none else afterClose? .file body := by
  fun_induction beforeClose body with
  | case1 => rfl
  | case2 rest => rfl
  | case3 c cs h ih =>
    rw [afterClose?.eq_3 _ _ _ h, after_close_cons h, ih]
    by_cases hc : c = '\n'
    · simp [hc]
    · simp [hc, Ne.symm hc]

theorem close_splits {body rest : List Char} (h : afterClose? .file body = some rest) :
    body = beforeClose body ++ '_' :: '/' :: rest := by
  fun_induction beforeClose body with
  | case1 => cases h
  | case2 tail =>
    cases h
    rfl
  | case3 c cs hc ih =>
    rw [after_close_cons hc] at h
    rw [List.cons_append, ← ih h]

def IsInside (k : List Char) : Prop :=
  ∀ tail, afterClose? .file (k ++ '_' :: '/' :: tail) = some tail ∧
    beforeClose (k ++ '_' :: '/' :: tail) = k

theorem inside_before_close {body rest : List Char} (h : afterClose? .file body = some rest) :
    IsInside (beforeClose body) := by
  fun_induction beforeClose body with
  | case1 => cases h
  | case2 tail => exact fun _ => ⟨rfl, rfl⟩
  | case3 c cs hc ih =>
    rw [after_close_cons hc] at h
    intro tail
    -- the sign of the end cannot begin at `c`: it would have begun there in the first text too
    have hopen : ∀ t, c = '_' → beforeClose cs ++ '_' :: '/' :: tail = '/' :: t → False := by
      intro t hunder hslash
      have hsplit := close_splits h
      cases hk : beforeClose cs with
      | nil => simp [hk] at hslash
      | cons d k =>
        rw [hk] at hsplit hslash
        obtain rfl : d = '/' := (List.cons.inj hslash).1
        exact hc (k ++ '_' :: '/' :: rest) hunder hsplit
    rw [List.cons_append, after_close_cons hopen, beforeClose.eq_3 _ _ hopen, (ih h tail).2]
    exact ⟨(ih h tail).1, rfl⟩

section Drop

variable {reach : Reach} {body rest : List Char}

theorem drop_comment (h : afterClose? reach body = some rest) :
    dropBlockComments reach ('\\' :: '_' :: body) = dropBlockComments reach rest := by
  rw [dropBlockComments]
  split
  · rename_i found hfound
    rw [h] at hfound
    cases hfound
    rfl
  · rename_i hnone
    rw [h] at hnone
    cases hnone

theorem drop_unclosed (h : afterClose? reach body = none) :
    dropBlockComments reach ('\\' :: '_' :: body) =
      '\\' :: dropBlockComments reach ('_' :: body) := by
  rw [dropBlockComments]
  split
  · rename_i found hfound
    rw [h] at hfound
    cases hfound
  · rfl

theorem drop_other {c : Char} {cs : List Char}
    (h : ∀ tail, c = '\\' → cs = '_' :: tail → False) :
    dropBlockComments reach (c :: cs) = c :: dropBlockComments reach cs :=
  dropBlockComments.eq_3 reach c cs h

theorem comments_cons (h : afterClose? .file body = some rest) :
    blockComments ('\\' :: '_' :: body) = beforeClose body :: blockComments rest := by
  rw [blockComments]
  split
  · rename_i found hfound
    rw [h] at hfound
    cases hfound
    rfl
  · rename_i hnone
    rw [h] at hnone
    cases hnone

theorem comments_unclosed (h : afterClose? .file body = none) :
    blockComments ('\\' :: '_' :: body) = blockComments ('_' :: body) := by
  rw [blockComments]
  split
  · rename_i found hfound
    rw [h] at hfound
    cases hfound
  · rfl

end Drop

theorem drop_line_eq (cs : List Char) (h : ∀ k ∈ blockComments cs, '\n' ∉ k) :
    dropBlockComments .line cs = dropBlockComments .file cs := by
  fun_induction blockComments cs with
  | case1 => simp [dropBlockComments]
  | case2 body rest hrest ih =>
    have hline : afterClose? .line body = some rest := by
      rw [after_close_line, if_neg (h _ List.mem_cons_self), hrest]
    rw [drop_comment hline, drop_comment hrest]
    exact ih fun k hk => h k (List.mem_cons_of_mem _ hk)
  | case3 body hnone ih =>
    have hline : afterClose? .line body = none := by
      rw [after_close_line, hnone, ite_self]
    rw [drop_unclosed hline, drop_unclosed hnone, ih h]
  | case4 c cs hc ih => rw [drop_other hc, drop_other hc, ih h]

theorem drop_plain (reach : Reach) {cs : List Char} (h : occurs opener cs = false) :
    dropBlockComments reach cs = cs := by
  induction cs with
  | nil => simp [dropBlockComments]
  | cons c cs ih =>
    rw [occurs, Bool.or_eq_false_iff] at h
    rw [drop_other, ih h.2]
    rintro tail rfl rfl
    exact absurd h.1 (by simp [opener, dropText?])

theorem comments_plain {cs : List Char} (h : occurs opener cs = false) : blockComments cs = [] := by
  induction cs with
  | nil => simp [blockComments]
  | cons c cs ih =>
    rw [occurs, Bool.or_eq_false_iff] at h
    rw [blockComments.eq_3, ih h.2]
    rintro tail rfl rfl
    exact absurd h.1 (by simp [opener, dropText?])

theorem comments_inside (cs : List Char) : ∀ k ∈ blockComments cs, IsInside k := by
  fun_induction blockComments cs with
  | case1 => simp
  | case2 body rest hrest ih =>
    intro k hk
    rcases List.mem_cons.mp hk with rfl | hk
    · exact inside_before_close hrest
    · exact ih k hk
  | case3 body hnone ih => exact ih
  | case4 c cs hc ih => exact ih

def withComments (ks : List (List Char)) (tail : List Char) : List Char :=
  ks.foldr comment tail

section Front

variable {ks : List (List Char)} {tail : List Char}

theorem comments_front (hks : ∀ k ∈ ks, IsInside k) (ht : occurs opener tail = false) :
    blockComments (withComments ks tail) = ks := by
  induction ks with
  | nil => exact comments_plain ht
  | cons k ks ih =>
    obtain ⟨hclose, hinside⟩ := hks k List.mem_cons_self (withComments ks tail)
    change blockComments (comment k (withComments ks tail)) = k :: ks
    rw [comment, comments_cons hclose, hinside, ih fun l hl => hks l (List.mem_cons_of_mem _ hl)]

theorem drop_front (hks : ∀ k ∈ ks, IsInside k) (ht : occurs opener tail = false) :
    dropBlockComments .file (withComments ks tail) = tail := by
  induction ks with
  | nil => exact drop_plain .file ht
  | cons k ks ih =>
    have hclose := (hks k List.mem_cons_self (withComments ks tail)).1
    change dropBlockComments .file (comment k (withComments ks tail)) = tail
    rw [comment, drop_comment hclose, ih fun l hl => hks l (List.mem_cons_of_mem _ hl)]

/-- The first comment with a line end stays, with its opening sign in front. -/
theorem front_stays (tail : List Char) (hks : ∀ k ∈ ks, IsInside k) (hline : ∃ k ∈ ks, '\n' ∈ k) :
    ∃ rest, dropBlockComments .line (withComments ks tail) = '\\' :: rest := by
  induction ks with
  | nil => simp at hline
  | cons k ks ih =>
    obtain ⟨hclose, hinside⟩ := hks k List.mem_cons_self (withComments ks tail)
    have hends := after_close_line (k ++ '_' :: '/' :: withComments ks tail)
    rw [hinside, hclose] at hends
    change ∃ rest, dropBlockComments .line (comment k (withComments ks tail)) = '\\' :: rest
    by_cases hk : '\n' ∈ k
    · rw [if_pos hk] at hends
      exact ⟨_, drop_unclosed hends⟩
    · rw [if_neg hk] at hends
      rw [comment, drop_comment hends]
      apply ih fun l hl => hks l (List.mem_cons_of_mem _ hl)
      obtain ⟨l, hl, hn⟩ := hline
      rcases List.mem_cons.mp hl with rfl | hl
      · exact absurd hn hk
      · exact ⟨l, hl, hn⟩

end Front

end Melody.Source

namespace Melody.Program

open Melody.Text
open Melody.Source (dropBlockComments blockComments)

theorem process_comments (cs : List Char) (p : Program)
    (hopen : occurs Source.opener (dropBlockComments .file cs) = false)
    (hline : ∀ k ∈ blockComments cs, '\n' ∉ k) :
    process cs p = process (dropBlockComments .file cs) p := by
  unfold process flatten
  rw [Source.drop_line_eq cs hline, Source.drop_plain .line hopen]

theorem keeps_instrument {cs : List Char} (h : findInstrument cs = none) :
    Keeps instrument (define cs) := by
  apply keeps_define Prod.fst
  intro p
  unfold setInstrument
  rw [h]

theorem strip_start {c : Char} (h : isBlank c = false) (cs : List Char) :
    ∃ rest, strip (c :: cs) = c :: rest := by
  obtain ⟨before, after, hparts, hbefore, hafter⟩ := strip_parts (c :: cs)
  cases before with
  | cons d before =>
    obtain rfl : c = d := (List.cons.inj hparts).1
    exact absurd (hbefore c List.mem_cons_self) (by simp [h])
  | nil =>
    cases hstrip : strip (c :: cs) with
    | nil =>
      rw [hstrip, List.nil_append, List.nil_append] at hparts
      have hc : c ∈ after := hparts ▸ List.mem_cons_self
      exact absurd (hafter c hc) (by simp [h])
    | cons d rest =>
      rw [hstrip] at hparts
      obtain rfl : c = d := (List.cons.inj hparts).1
      exact ⟨rest, rfl⟩

theorem flatten_start {cs tail : List Char} (h : dropBlockComments .line cs = '\\' :: tail) :
    ∃ rest, flatten cs = '\\' :: rest := by
  obtain ⟨line, more, hlines⟩ : ∃ line more, lines ('\\' :: tail) = ('\\' :: line) :: more := by
    rw [lines, splitOn, if_neg (by decide)]
    split
    · exact ⟨_, _, rfl⟩
    · exact ⟨_, _, rfl⟩
  obtain ⟨first, hfirst⟩ := strip_start (show isBlank '\\' = false by decide)
    (Source.beforeLineComment (isBlank '\\') line)
  have hdrop : strip (Source.dropLineComment ('\\' :: line)) = '\\' :: first := hfirst
  unfold flatten
  dsimp only
  rw [h, hlines, List.map_cons, hdrop, List.filter_cons_of_pos rfl]
  cases (more.map fun l => strip (Source.dropLineComment l)).filter fun l => !l.isEmpty with
  | nil => exact ⟨_, rfl⟩
  | cons piece pieces => exact ⟨_, rfl⟩

def fluteText : List Char := "instrumento flauta".toList

theorem comments_noticed {ks : List (List Char)} (hks : ∀ k ∈ ks, Source.IsInside k)
    (hline : ∃ k ∈ ks, '\n' ∈ k) :
    (process (Source.withComments ks fluteText) {}).program.instrument ≠
      (process fluteText {}).program.instrument := by
  obtain ⟨rest, hstays⟩ := Source.front_stays fluteText hks hline
  obtain ⟨text, htext⟩ := flatten_start hstays
  have hnone : findInstrument (flatten (Source.withComments ks fluteText)) = none := by
    rw [htext]
    rfl
  have hkept : (process (Source.withComments ks fluteText) {}).program.instrument = "piano" :=
    keeps_instrument hnone {}
  rw [hkept]
  decide +kernel

/-- Every text with these comments is loaded like the text without them, provided that dropping
them brings no new one about. -/
def Transparent (ks : List (List Char)) : Prop :=
  ∀ (cs : List Char) (p : Program), occurs Source.opener (dropBlockComments .file cs) = false →
    blockComments cs = ks → process cs p = process (dropBlockComments .file cs) p

/-- The comments of a text can be disregarded exactly when none of them runs over a line end. -/
theorem transparent_iff (cs : List Char) :
    Transparent (blockComments cs) ↔ ∀ k ∈ blockComments cs, '\n' ∉ k := by
  constructor
  · intro h k hk hn
    have hinside := Source.comments_inside cs
    have hplain : occurs Source.opener fluteText = false := by decide
    have hdrop := Source.drop_front hinside hplain
    have hsame := h _ {} (by rw [hdrop]; exact hplain) (Source.comments_front hinside hplain)
    rw [hdrop] at hsame
    exact comments_noticed hinside ⟨k, hk, hn⟩ (by rw [hsame])
  · intro hline text p hopen hcomments
    exact process_comments text p hopen (hcomments ▸ hline)

def tempoComment : List Char := "\\_\ntempo 60\n_/".toList

theorem tempo_in_comment :
    (¬ Transparent (blockComments tempoComment)) ∧
      (process tempoComment {}).program.tempo.asInt? = some 60 ∧
      (process (dropBlockComments .file tempoComment) {}).program.tempo.asInt? = some 120 := by
  refine ⟨fun h => ?_, by decide +kernel, by decide +kernel⟩
  have hinside :
      ['\n', 't', 'e', 'm', 'p', 'o', ' ', '6', '0', '\n'] ∈ blockComments tempoComment := by
    decide +kernel
  exact (transparent_iff tempoComment).mp h _ hinside List.mem_cons_self

end Melody.Program
