import Melody.Proofs.Lexemes

/-!
# The line numbers of tokens

Block comments are cut out of a text before its lines are counted. So the line that a token
reports falls short of the line on which its first character stands, by the line ends in the
comments in front of it, and it is right exactly if these have none.
-/

set_option autoImplicit false

namespace Melody.Source

open Melody.Text

def lineAt (cs : List Char) (place : Nat) : Nat :=
  (lines (cs.take place)).length

def outside (place : Nat) : List Char → List (Nat × Char)
  | [] => []
  | '\\' :: '_' :: body =>
    match _h : afterClose? .file body with
    | some rest => outside (place + (body.length + 2 - rest.length)) rest
    | none => (place, '\\') :: outside (place + 1) ('_' :: body)
  | c :: cs => (place, c) :: outside (place + 1) cs
termination_by cs => cs.length
decreasing_by
  · have := length_of_afterClose? .file body _h
    simp only [List.length_cons] at *
    omega
  · simp
  · simp

def lineEnds (comments : List (List Char)) : Nat :=
  comments.flatten.count '\n'

theorem line_ends_zero {comments : List (List Char)} :
    lineEnds comments = 0 ↔ ∀ k ∈ comments, '\n' ∉ k := by
  simp only [lineEnds, List.count_eq_zero, List.mem_flatten, not_exists, not_and]

theorem lines_length (cs : List Char) : (lines cs).length = cs.count '\n' + 1 := by
  unfold lines
  induction cs with
  | nil => rfl
  | cons c cs ih =>
    rw [splitOn]
    by_cases hc : c = '\n'
    · rw [if_pos hc, List.length_cons, ih, hc, List.count_cons_self]
    · rw [if_neg hc, List.count_cons_of_ne hc]
      cases hpieces : splitOn '\n' cs with
      | nil => exact absurd hpieces (split_on_ne_nil '\n' cs)
      | cons piece pieces =>
        rw [← ih, hpieces]
        rfl

/-- The line ends of a text stand outside its comments or in them. -/
theorem count_line_ends (cs : List Char) :
    cs.count '\n' = (dropBlockComments .file cs).count '\n' + lineEnds (blockComments cs) := by
  unfold lineEnds
  fun_induction blockComments cs with
  | case1 => simp [dropBlockComments]
  | case2 body rest hrest ih =>
    have hcount : body.count '\n' = (beforeClose body).count '\n' + rest.count '\n' := by
      nth_rewrite 1 [close_splits hrest]
      simp
    rw [drop_comment hrest, List.flatten_cons, List.count_append,
      List.count_cons_of_ne (by decide), List.count_cons_of_ne (by decide), hcount, ih]
    omega
  | case3 body hnone ih =>
    rw [drop_unclosed hnone, List.count_cons, ih, List.count_cons]
    omega
  | case4 c cs hc ih =>
    rw [drop_other hc, List.count_cons, ih, List.count_cons]
    omega

theorem outside_chars (place : Nat) (cs : List Char) :
    (outside place cs).map (·.2) = dropBlockComments .file cs := by
  fun_induction outside place cs with
  | case1 place => simp [dropBlockComments]
  | case2 place body rest hrest ih => rw [drop_comment hrest, ih]
  | case3 place body hnone ih => rw [drop_unclosed hnone, List.map_cons, ih]
  | case4 place c cs hc ih => rw [drop_other hc, List.map_cons, ih]

theorem after_close_append {body rest : List Char} (h : afterClose? .file body = some rest)
    (more : List Char) : afterClose? .file (body ++ more) = some (rest ++ more) := by
  have hclose := (inside_before_close h (rest ++ more)).1
  rw [close_splits h]
  simpa using hclose

def StartsNone (c : Char) (cs : List Char) : Prop :=
  ∀ body, c = '\\' → cs = '_' :: body → afterClose? .file body = none

theorem StartsNone.of_append {c : Char} {front more : List Char}
    (h : StartsNone c (front ++ more)) : StartsNone c front := by
  rintro body hc rfl
  cases hclose : afterClose? .file body with
  | none => rfl
  | some rest =>
    have hmore := after_close_append hclose more
    rw [h (body ++ more) hc rfl] at hmore
    cases hmore

theorem StartsNone.drop {c : Char} {cs : List Char} (h : StartsNone c cs) :
    dropBlockComments .file (c :: cs) = c :: dropBlockComments .file cs := by
  by_cases hopen : ∃ body, c = '\\' ∧ cs = '_' :: body
  · obtain ⟨body, rfl, rfl⟩ := hopen
    exact drop_unclosed (h body rfl rfl)
  · exact drop_other fun body hc hcs => hopen ⟨body, hc, hcs⟩

theorem StartsNone.comments {c : Char} {cs : List Char} (h : StartsNone c cs) :
    blockComments (c :: cs) = blockComments cs := by
  by_cases hopen : ∃ body, c = '\\' ∧ cs = '_' :: body
  · obtain ⟨body, rfl, rfl⟩ := hopen
    exact comments_unclosed (h body rfl rfl)
  · exact blockComments.eq_3 c cs fun body hc hcs => hopen ⟨body, hc, hcs⟩

structure Splits (cs : List Char) (before : List (Nat × Char)) (c : Char) (front : List Char) :
    Prop where
  text : ∃ rest, cs = front ++ c :: rest
  drop : dropBlockComments .file front = before.map (·.2)
  comments : blockComments front <+: blockComments cs

theorem Splits.nil (c : Char) (cs : List Char) : Splits (c :: cs) [] c [] where
  text := ⟨cs, rfl⟩
  drop := by simp [dropBlockComments]
  comments := by simp [blockComments]

theorem Splits.cons {c d : Char} {cs front : List Char} {before : List (Nat × Char)} {p : Nat}
    (hd : StartsNone d cs) (h : Splits cs before c front) :
    Splits (d :: cs) ((p, d) :: before) c (d :: front) := by
  obtain ⟨rest, hrest⟩ := h.text
  have hfront : StartsNone d front := StartsNone.of_append (hrest ▸ hd)
  refine ⟨⟨rest, by rw [hrest, List.cons_append]⟩, ?_, ?_⟩
  · rw [hfront.drop, h.drop, List.map_cons]
  · rw [hfront.comments, hd.comments]
    exact h.comments

theorem Splits.comment {c : Char} {body rest front : List Char} {before : List (Nat × Char)}
    (hrest : afterClose? .file body = some rest) (h : Splits rest before c front) :
    Splits ('\\' :: '_' :: body) before c (comment (beforeClose body) front) := by
  obtain ⟨tail, htail⟩ := h.text
  obtain ⟨hclose, hinside⟩ := inside_before_close hrest front
  refine ⟨⟨tail, ?_⟩, ?_, ?_⟩
  · nth_rewrite 1 [close_splits hrest]
    simp [Source.comment, htail]
  · rw [Source.comment, drop_comment hclose, h.drop]
  · rw [Source.comment, comments_cons hclose, hinside, comments_cons hrest]
    exact List.cons_prefix_cons.mpr ⟨rfl, h.comments⟩

/-- One character further, whether or not a comment seems to open there. -/
theorem splits_step {place p : Nat} {c d : Char} {cs : List Char}
    {before after more : List (Nat × Char)} (hd : StartsNone d cs)
    (h : (place, d) :: more = before ++ (p, c) :: after)
    (ih : ∀ {between}, more = between ++ (p, c) :: after →
      ∃ front, Splits cs between c front ∧ p = place + 1 + front.length) :
    ∃ front, Splits (d :: cs) before c front ∧ p = place + front.length := by
  cases before with
  | nil =>
    obtain ⟨hhere, -⟩ := List.cons.inj h
    obtain ⟨rfl, rfl⟩ := Prod.mk.inj hhere
    exact ⟨[], Splits.nil d cs, rfl⟩
  | cons x between =>
    obtain ⟨rfl, hmore⟩ := List.cons.inj h
    obtain ⟨front, hfront, hp⟩ := ih hmore
    refine ⟨d :: front, hfront.cons hd, ?_⟩
    rw [hp, List.length_cons]
    omega

theorem outside_splits {place p : Nat} {c : Char} {cs : List Char}
    {before after : List (Nat × Char)} (h : outside place cs = before ++ (p, c) :: after) :
    ∃ front, Splits cs before c front ∧ p = place + front.length := by
  fun_induction outside place cs generalizing before with
  | case1 place => simp at h
  | case2 place body rest hrest ih =>
    obtain ⟨front, hfront, hp⟩ := ih h
    have hlength := congrArg List.length (close_splits hrest)
    refine ⟨comment (beforeClose body) front, hfront.comment hrest, ?_⟩
    simp only [comment, List.length_append, List.length_cons] at hlength ⊢
    omega
  | case3 place body hnone ih =>
    have hstarts : StartsNone '\\' ('_' :: body) := by
      rintro _ - ⟨⟩
      exact hnone
    exact splits_step hstarts h ih
  | case4 place d cs hd ih => exact splits_step (fun body hc hcs => (hd body hc hcs).elim) h ih

/-- The line of a character outside comments, from what stands in front of it. -/
theorem line_at_splits {cs front : List Char} {before : List (Nat × Char)} {c : Char}
    (h : Splits cs before c front) :
    lineAt cs front.length =
      1 + (before.map (·.2)).count '\n' + lineEnds (blockComments front) := by
  obtain ⟨rest, rfl⟩ := h.text
  rw [lineAt, List.take_left, lines_length, count_line_ends, h.drop]
  omega

end Melody.Source

namespace Melody.Token

open Melody.Text
open Melody.Source (dropBlockComments blockComments lineAt lineEnds outside)

section Follows

variable {cs front : List Char} {before : List Token} {t : Token}

theorem Follows.ahead (h : Follows cs before t front) (more : List Char) :
    Follows (cs ++ more) before t front := by
  obtain ⟨rest, rfl⟩ := h.text
  exact ⟨⟨rest ++ more, by simp only [List.append_assoc]⟩, h.front, h.start⟩

theorem Follows.behind (h : Follows cs before t front) {text : List Char} {tokens : List Token}
    (htext : dense text = tokens.flatMap (·.text)) :
    Follows (text ++ cs) (tokens ++ before) t (text ++ front) := by
  obtain ⟨rest, rfl⟩ := h.text
  refine ⟨⟨rest, by simp only [List.append_assoc]⟩, ?_, h.start⟩
  rw [dense_append, htext, h.front, List.flatMap_append]

end Follows

theorem split_here_or_later {here rest before after : List Token} {t : Token}
    (h : here ++ rest = before ++ t :: after) :
    (∃ more, here = before ++ t :: more) ∨
      ∃ between, before = here ++ between ∧ rest = between ++ t :: after := by
  rcases List.append_eq_append_iff.mp h with ⟨between, hbefore, hrest⟩ | ⟨more, hhere, hmore⟩
  · exact .inr ⟨between, hbefore, hrest⟩
  · cases more with
    | nil => exact .inr ⟨[], by simpa using hhere.symm, by simpa using hmore.symm⟩
    | cons u more =>
      obtain ⟨rfl, -⟩ := List.cons.inj hmore
      exact .inl ⟨more, hhere⟩

/-- A token of a row stands in the row, behind its indentation. -/
theorem row_split {line : Nat} {row : List Char} {tokens before after : List Token} {t : Token}
    (h : ofLine line (strip row) = .ok tokens) (ht : tokens = before ++ t :: after) :
    ∃ front, Follows row before t front ∧ t.line = line := by
  obtain ⟨front, hfollows, -, hline⟩ := line_split h ht
  obtain ⟨blanks, trail, hrow, hblanks, -⟩ := strip_parts row
  have hindent : dense blanks = ([] : List Token).flatMap (·.text) := dense_blanks hblanks
  have hbehind := (hfollows.ahead trail).behind hindent
  rw [← hrow] at hbehind
  exact ⟨blanks ++ front, hbehind, hline⟩

theorem of_lines_split {line : Nat} {rows : List (List Char)} {tokens before after : List Token}
    {t : Token} (hrows : ∀ row ∈ rows, '\n' ∉ row) (h : ofLines line rows = .ok tokens)
    (ht : tokens = before ++ t :: after) :
    ∃ front, Follows (join ['\n'] rows) before t front ∧ t.line = line + front.count '\n' := by
  induction rows generalizing line tokens before with
  | nil =>
    obtain rfl : [] = tokens := Except.ok.inj h
    simp at ht
  | cons row rows ih =>
    obtain ⟨here, hhere, h⟩ := bind_ok h
    obtain ⟨rest, hrest, h⟩ := bind_ok h
    obtain rfl := Except.ok.inj h
    have hrow : '\n' ∉ row := hrows row List.mem_cons_self
    rcases split_here_or_later ht with ⟨more, hmore⟩ | ⟨between, rfl, hbetween⟩
    · -- the token stands in the first row, in front of every line end
      obtain ⟨front, hfollows, hline⟩ := row_split hhere hmore
      have hnone : front.count '\n' = 0 := by
        obtain ⟨tail, htail⟩ := hfollows.text
        rw [htail] at hrow
        exact List.count_eq_zero.mpr fun hn => hrow (List.mem_append_left _ hn)
      refine ⟨front, ?_, by rw [hline, hnone, Nat.add_zero]⟩
      cases rows with
      | nil => exact hfollows
      | cons next rows =>
        rw [join_cons_cons, List.append_assoc]
        exact hfollows.ahead _
    · -- the token stands in a later row, behind the end of the first one
      obtain ⟨front, hfollows, hline⟩ :=
        ih (fun r hr => hrows r (List.mem_cons_of_mem _ hr)) hrest hbetween
      cases rows with
      | nil =>
        obtain rfl : [] = rest := Except.ok.inj hrest
        simp at hbetween
      | cons next rows =>
        have hfirst : dense (row ++ ['\n']) = here.flatMap (·.text) := by
          rw [line_texts hhere, dense_strip, dense_append]
          exact List.append_nil (dense row)
        refine ⟨row ++ ['\n'] ++ front, hfollows.behind hfirst, ?_⟩
        rw [hline, List.count_append, List.count_append, List.count_eq_zero.mpr hrow,
          List.count_singleton_self]
        omega

theorem scan_split {cs : List Char} {before after : List Token} {t : Token}
    (h : scan cs = .ok (before ++ t :: after)) :
    ∃ front, Follows (dropBlockComments .file cs) before t front ∧
      t.line = 1 + front.count '\n' := by
  have hrows : ∀ row ∈ lines (dropBlockComments .file cs), '\n' ∉ row :=
    fun row hrow => split_on_lacks hrow
  have hsplit := of_lines_split hrows h rfl
  rwa [lines, join_split_on] at hsplit

/-- The characters of a token with their places in the text. They are found by their number: the
tokens `before` it are made of the characters in front of them that are neither blank nor in a
comment. -/
def standing (cs : List Char) (before : List Token) (t : Token) : List (Nat × Char) :=
  (((outside 0 cs).filter fun x => !isBlank x.2).drop (before.flatMap (·.text)).length).take
    t.text.length

theorem solid_chars (xs : List (Nat × Char)) :
    (xs.filter fun x => !isBlank x.2).map (·.2) = dense (xs.map (·.2)) := by
  rw [dense, List.filter_map]
  rfl

theorem standing_chars {cs : List Char} {before after : List Token} {t : Token}
    (h : scan cs = .ok (before ++ t :: after)) : (standing cs before t).map (·.2) = t.text := by
  have htext := (scan_covers h).text
  rw [standing, List.map_take, List.map_drop, solid_chars, Source.outside_chars, ← htext,
    List.flatMap_append, List.flatMap_cons, List.drop_left, List.take_left]

theorem standing_head {cs : List Char} {before : List Token} {t : Token} {c : Char} {p : Nat}
    {xs ys : List (Nat × Char)} (hout : outside 0 cs = xs ++ (p, c) :: ys) (hc : isBlank c = false)
    (hxs : dense (xs.map (·.2)) = before.flatMap (·.text)) (ht : t.text ≠ []) :
    (standing cs before t).head? = some (p, c) := by
  have hlength : (xs.filter fun x => !isBlank x.2).length = (before.flatMap (·.text)).length := by
    rw [← hxs, ← solid_chars, List.length_map]
  obtain ⟨n, hn⟩ := Nat.exists_eq_succ_of_ne_zero (mt List.length_eq_zero_iff.mp ht)
  rw [standing, hout, List.filter_append, List.filter_cons_of_pos (by simp [hc]), ← hlength,
    List.drop_left, hn]
  rfl

/-- The first character of a token, and what stands in front of it in the text. -/
theorem scan_splits {cs : List Char} {before after : List Token} {t : Token}
    (h : scan cs = .ok (before ++ t :: after)) :
    ∃ xs c front, Source.Splits cs xs c front ∧
      (standing cs before t).head? = some (front.length, c) ∧
      t.line = 1 + (xs.map (·.2)).count '\n' := by
  obtain ⟨dropped, hfollows, hline⟩ := scan_split h
  obtain ⟨rest, hdrop⟩ := hfollows.text
  obtain ⟨c, tail, htext, hc⟩ := hfollows.start
  rw [← Source.outside_chars 0, htext] at hdrop
  obtain ⟨xs, zs, hout, rfl, hzs⟩ := List.map_eq_append_iff.mp hdrop
  obtain ⟨⟨p, d⟩, ys, rfl, rfl, -⟩ := List.map_eq_cons_iff.mp hzs
  obtain ⟨front, hsplits, hp⟩ := Source.outside_splits hout
  rw [Nat.zero_add] at hp
  refine ⟨xs, d, front, hsplits, ?_, hline⟩
  rw [← hp]
  exact standing_head hout hc hfollows.front (by simp [htext])

/-- The line of a token falls short of the line on which its first character stands by the line
ends in the comments in front of it. So it is right exactly if each of these comments ends on the
line on which it starts. -/
theorem line_right_iff {cs : List Char} {before after : List Token} {t : Token}
    (h : scan cs = .ok (before ++ t :: after)) :
    (standing cs before t).map (·.2) = t.text ∧
      ∃ place c, (standing cs before t).head? = some (place, c) ∧ cs[place]? = some c ∧
        blockComments (cs.take place) <+: blockComments cs ∧
        lineAt cs place = t.line + lineEnds (blockComments (cs.take place)) ∧
        (t.line = lineAt cs place ↔ ∀ k ∈ blockComments (cs.take place), '\n' ∉ k) := by
  obtain ⟨xs, c, front, hsplits, hhead, hline⟩ := scan_splits h
  have hshort := Source.line_at_splits hsplits
  rw [← hline] at hshort
  obtain ⟨rest, hcs⟩ := hsplits.text
  have htake : cs.take front.length = front := by rw [hcs, List.take_left]
  refine ⟨standing_chars h, front.length, c, hhead, ?_, ?_⟩
  · rw [hcs]
    simp
  · rw [htake]
    refine ⟨hsplits.comments, hshort, ?_⟩
    rw [← Source.line_ends_zero]
    omega

def headedText : List Char := "\\_\n_/\ntocar".toList

def headedToken : Token := ⟨.keyword, "tocar".toList, 2, 1⟩

/-- The command stands on the third line, and its token says the second. -/
theorem headed_line_short :
    scan headedText = .ok [headedToken] ∧
      (standing headedText [] headedToken).map (·.2) = headedToken.text ∧
      ∃ place c, (standing headedText [] headedToken).head? = some (place, c) ∧
        headedText[place]? = some c ∧ lineAt headedText place = 3 ∧
        headedToken.line = 2 ∧ ¬ ∀ k ∈ blockComments (headedText.take place), '\n' ∉ k := by
  have hscan : (scan headedText).toOption = some [headedToken] := by decide +kernel
  have h := Act.ok_of_option hscan
  obtain ⟨hchars, place, c, hhead, hplace, -, -, hright⟩ :=
    @line_right_iff headedText [] [] headedToken h
  have hfirst : (standing headedText [] headedToken).head? = some (6, 't') := by decide +kernel
  obtain ⟨rfl, rfl⟩ := Prod.mk.inj (Option.some.inj (hfirst.symm.trans hhead))
  have hline : lineAt headedText 6 = 3 := by decide +kernel
  refine ⟨h, hchars, 6, 't', hhead, hplace, hline, rfl, ?_⟩
  rw [← hright, hline]
  decide

end Melody.Token
