import Melody.Proofs.Actions
import Melody.Proofs.Cleaning
import Melody.Proofs.Playable

/-!
# The lexemes of a line

Every character of a line that is no blank belongs to exactly one lexeme, and a lexeme stands in
the line where its column says. What a lexeme begins with decides how far it reaches, and it
reaches just as far when a blank is put behind it. So the tokens of a line are found again, with
the same kinds, in their texts with single blanks between them.
-/

set_option autoImplicit false

namespace Melody.Token

open Melody.Text

def dense (cs : List Char) : List Char :=
  cs.filter fun c => !isBlank c

theorem dense_append (front back : List Char) : dense (front ++ back) = dense front ++ dense back :=
  List.filter_append ..

theorem dense_blanks {cs : List Char} (h : ∀ c ∈ cs, isBlank c) : dense cs = [] :=
  List.filter_eq_nil_iff.mpr fun c hc => by simp [h c hc]

theorem dense_solid {cs : List Char} (h : ∀ c ∈ cs, isBlank c = false) : dense cs = cs :=
  List.filter_eq_self.mpr fun c hc => by simp [h c hc]

theorem dense_blank_cons {c : Char} (h : isBlank c) (cs : List Char) :
    dense (c :: cs) = dense cs :=
  List.filter_cons_of_neg (by simp [h])

theorem dense_strip (cs : List Char) : dense (strip cs) = dense cs := by
  obtain ⟨before, after, hparts, hbefore, hafter⟩ := strip_parts cs
  rw [hparts, dense_append, dense_append, dense_blanks hbefore, dense_blanks hafter, ← hparts,
    List.nil_append, List.append_nil]

theorem dense_join (pieces : List (List Char)) :
    dense (join ['\n'] pieces) = pieces.flatMap dense := by
  induction pieces with
  | nil => rfl
  | cons piece pieces ih =>
    cases pieces with
    | nil => simp [join]
    | cons next pieces =>
      have hbreak : dense ['\n'] = [] := dense_blanks (by decide)
      rw [join_cons_cons, dense_append, dense_append, hbreak, List.append_nil, ih]
      rfl

theorem dense_lines (cs : List Char) : (lines cs).flatMap dense = dense cs := by
  rw [← dense_join]
  exact congrArg dense (join_split_on '\n' cs)

def SetOff (rest : List Char) : Prop :=
  Stops (fun c => !isBlank c) rest

theorem set_off_stops {rest : List Char} (h : SetOff rest) {p : Char → Bool}
    (hp : ∀ c, isBlank c → p c = false) : Stops p rest := by
  intro c hc
  apply hp
  simpa using h c hc

theorem run_again {p : Char → Bool} {run rest : List Char} (hrun : ∀ c ∈ run, p c)
    (hrest : Stops p rest) :
    (run ++ rest).takeWhile p = run ∧ (run ++ rest).dropWhile p = rest := by
  rw [List.takeWhile_append_of_pos hrun, List.dropWhile_append_of_pos hrun,
    (take_while_stops hrest).1, (take_while_stops hrest).2, List.append_nil]
  exact ⟨rfl, rfl⟩

theorem ascii_digit_solid {c : Char} (h : isAsciiDigit c) : isBlank c = false := by
  apply word_not_blank
  apply word_of_continues
  have hdigit : c.isDigit := by
    simp only [isAsciiDigit, Bool.and_eq_true, decide_eq_true_eq] at h
    simp only [Char.isDigit, Bool.and_eq_true, decide_eq_true_eq]
    exact h
  simp [continuesIdentifier, Char.isAlphanum, hdigit]

theorem blank_not_digit {c : Char} (h : isBlank c) : isAsciiDigit c = false := by
  by_contra hdigit
  rw [ascii_digit_solid (by simpa using hdigit)] at h
  contradiction

theorem blank_not_continues {c : Char} (h : isBlank c) : continuesIdentifier c = false := by
  by_contra hcontinues
  rw [word_not_blank (word_of_continues (by simpa using hcontinues))] at h
  contradiction

def IsFraction (point : List Char) : Prop :=
  point = [] ∨ ∃ digits, point = '.' :: digits ∧ ∀ c ∈ digits, isAsciiDigit c

theorem numeral_tail_append {digits point rest : List Char} (hdigits : ∀ c ∈ digits, isAsciiDigit c)
    (hpoint : IsFraction point) (hrest : SetOff rest) :
    numeralTail (digits ++ (point ++ rest)) = (digits ++ point).length := by
  have hstops : Stops isAsciiDigit rest := set_off_stops hrest fun c => blank_not_digit
  unfold numeralTail
  dsimp only
  rcases hpoint with rfl | ⟨more, rfl, hmore⟩
  · rw [List.nil_append, (run_again hdigits hstops).1, (run_again hdigits hstops).2,
      List.append_nil]
    split
    · rename_i tail
      exact absurd (hrest '.' rfl) (by decide)
    · rfl
  · have hpoint : Stops isAsciiDigit ('.' :: (more ++ rest)) := stops_cons (by decide)
    rw [List.cons_append, (run_again hdigits hpoint).1, (run_again hdigits hpoint).2]
    simp only [(run_again hmore hstops).1, List.length_append, List.length_cons]
    omega

/-- A numeral goes on with the digits that follow and with a point behind them. -/
theorem numeral_parts (cs : List Char) : ∃ point, IsFraction point ∧
    cs.takeWhile isAsciiDigit ++ point <+: cs ∧
    numeralTail cs = (cs.takeWhile isAsciiDigit ++ point).length := by
  have hsplit := List.takeWhile_append_dropWhile (p := isAsciiDigit) (l := cs)
  unfold numeralTail
  dsimp only
  split
  · rename_i rest hrest
    refine ⟨'.' :: rest.takeWhile isAsciiDigit, .inr ⟨_, rfl, ?_⟩, ?_, ?_⟩
    · exact fun c hc => List.mem_takeWhile_imp hc
    · nth_rewrite 2 [← hsplit]
      rw [hrest]
      exact (List.prefix_append_right_inj _).mpr
        ((List.prefix_cons_inj '.').mpr (List.takeWhile_prefix _))
    · simp only [List.length_append, List.length_cons]
      omega
  · refine ⟨[], .inl rfl, ?_, ?_⟩
    · rw [List.append_nil]
      exact List.takeWhile_prefix _
    · rw [List.append_nil]

structure Tail (c : Char) (cs tail : List Char) : Prop where
  front : tail <+: cs
  length : lexemeTail c cs = tail.length
  solid : ∀ d ∈ tail, isBlank d = false
  again : ∀ rest, SetOff rest → lexemeTail c (tail ++ rest) = tail.length

theorem tail_of_run {c : Char} {p : Char → Bool}
    (h : ∀ ds, lexemeTail c ds = (ds.takeWhile p).length) (hp : ∀ d, isBlank d → p d = false)
    (cs : List Char) : Tail c cs (cs.takeWhile p) where
  front := List.takeWhile_prefix p
  length := h cs
  solid d hd := by
    by_contra hblank
    have hnot := hp d (by simpa using hblank)
    rw [List.mem_takeWhile_imp hd] at hnot
    contradiction
  again rest hrest := by
    have hrun : ∀ d ∈ cs.takeWhile p, p d := fun d hd => List.mem_takeWhile_imp hd
    rw [h, (run_again hrun (set_off_stops hrest hp)).1]

theorem tail_of_numeral {c : Char} (h : ∀ ds, lexemeTail c ds = numeralTail ds) (cs : List Char) :
    ∃ tail, Tail c cs tail := by
  obtain ⟨point, hpoint, hfront, hlength⟩ := numeral_parts cs
  have hdigits : ∀ d ∈ cs.takeWhile isAsciiDigit, isAsciiDigit d :=
    fun d hd => List.mem_takeWhile_imp hd
  refine ⟨_, hfront, (h cs).trans hlength, ?_, ?_⟩
  · intro d hd
    rcases List.mem_append.mp hd with hd | hd
    · exact ascii_digit_solid (hdigits d hd)
    · rcases hpoint with rfl | ⟨digits, rfl, hmore⟩
      · contradiction
      · rcases List.mem_cons.mp hd with rfl | hd
        · decide
        · exact ascii_digit_solid (hmore d hd)
  · intro rest hrest
    rw [h, List.append_assoc]
    exact numeral_tail_append hdigits hpoint hrest

/-- The first character of a lexeme decides which of four runs follows it. -/
theorem lexeme_tail (c : Char) (cs : List Char) : ∃ tail, Tail c cs tail := by
  by_cases hstart : startsIdentifier c
  · exact ⟨_, tail_of_run (fun ds => by rw [lexemeTail, if_pos hstart])
      (fun d => blank_not_continues) cs⟩
  by_cases hdigit : isAsciiDigit c
  · exact tail_of_numeral (fun ds => by rw [lexemeTail, if_neg hstart, if_pos hdigit]) cs
  by_cases hsign : isSign c
  · have hnone (ds : List Char) : lexemeTail c ds = 0 := by
      rw [lexemeTail, if_neg hstart, if_neg hdigit, if_pos hsign]
    exact ⟨[], List.nil_prefix, hnone cs, by simp, fun rest _ => hnone _⟩
  · exact ⟨_, tail_of_run
      (fun ds => by rw [lexemeTail, if_neg hstart, if_neg hdigit, if_neg hsign])
      (fun d hd => by simp [hd]) cs⟩

inductive Cut : List Char → Nat → List (Nat × List Char) → Prop where
  | nil (column : Nat) : Cut [] column []
  | blank {c : Char} {cs : List Char} {column : Nat} {pieces : List (Nat × List Char)}
      (hblank : isBlank c) (hrest : Cut cs (column + 1) pieces) : Cut (c :: cs) column pieces
  | lexeme {c : Char} {tail cs : List Char} {column : Nat} {pieces : List (Nat × List Char)}
      (hsolid : isBlank c = false) (htail : Tail c (tail ++ cs) tail)
      (hrest : Cut cs (column + (c :: tail).length) pieces) :
      Cut (c :: (tail ++ cs)) column ((column, c :: tail) :: pieces)

theorem lexemes_cons {c : Char} (h : isBlank c = false) {tail cs : List Char}
    (htail : lexemeTail c (tail ++ cs) = tail.length) (column : Nat) :
    lexemes (c :: (tail ++ cs)) column =
      (column, c :: tail) :: lexemes cs (column + (c :: tail).length) := by
  have hnext : column + 1 + tail.length = column + (c :: tail).length := by
    simp only [List.length_cons]
    omega
  rw [lexemes, if_neg (by simp [h])]
  dsimp only
  rw [htail, List.take_left, List.drop_left, hnext]

theorem lexemes_cut (cs : List Char) (column : Nat) : Cut cs column (lexemes cs column) := by
  induction hn : cs.length using Nat.strongRecOn generalizing cs column with
  | ind n ih =>
    cases cs with
    | nil =>
      rw [lexemes]
      exact .nil column
    | cons c cs =>
      rw [List.length_cons] at hn
      by_cases hblank : isBlank c
      · rw [lexemes, if_pos hblank]
        exact .blank hblank (ih cs.length (by omega) cs _ rfl)
      · have hsolid : isBlank c = false := by simpa using hblank
        obtain ⟨tail, htail⟩ := lexeme_tail c cs
        obtain ⟨rest, rfl⟩ := htail.front
        rw [List.length_append] at hn
        rw [lexemes_cons hsolid htail.length]
        exact .lexeme hsolid htail (ih rest.length (by omega) rest _ rfl)

theorem dense_lexeme {c : Char} {cs tail : List Char} (hsolid : isBlank c = false)
    (htail : Tail c cs tail) : dense (c :: tail) = c :: tail := by
  apply dense_solid
  intro d hd
  rcases List.mem_cons.mp hd with rfl | hd
  · exact hsolid
  · exact htail.solid d hd

namespace Cut

variable {cs : List Char} {column : Nat} {pieces : List (Nat × List Char)}

theorem dense (h : Cut cs column pieces) : pieces.flatMap (·.2) = dense cs := by
  induction h with
  | nil column => rfl
  | blank hblank hrest ih => rw [ih, dense_blank_cons hblank]
  | lexeme hsolid htail hrest ih =>
    rw [List.flatMap_cons, ih, ← List.cons_append, dense_append, dense_lexeme hsolid htail]

/-- The part of a line in front of a lexeme has the lexemes before it, and ends at its column. -/
theorem split (h : Cut cs column pieces) {before after : List (Nat × List Char)} {k : Nat}
    {w : List Char} (hpieces : pieces = before ++ (k, w) :: after) :
    ∃ front rest, cs = front ++ (w ++ rest) ∧ Token.dense front = before.flatMap (·.2) ∧
      k = column + front.length := by
  induction h generalizing before with
  | nil column => simp at hpieces
  | @blank c cs column pieces hblank hrest ih =>
    obtain ⟨front, rest, rfl, hdense, hk⟩ := ih hpieces
    refine ⟨c :: front, rest, rfl, (dense_blank_cons hblank front).trans hdense, ?_⟩
    rw [List.length_cons]
    omega
  | @lexeme c tail cs column pieces hsolid htail hrest ih =>
    cases before with
    | nil =>
      obtain ⟨hfirst, -⟩ := List.cons.inj hpieces
      obtain ⟨rfl, rfl⟩ := Prod.mk.inj hfirst
      exact ⟨[], cs, rfl, rfl, rfl⟩
    | cons first before =>
      obtain ⟨rfl, hmore⟩ := List.cons.inj hpieces
      obtain ⟨front, rest, rfl, hdense, hk⟩ := ih hmore
      refine ⟨c :: tail ++ front, rest, by simp, ?_, ?_⟩
      · rw [dense_append, dense_lexeme hsolid htail, hdense, List.flatMap_cons]
      · rw [List.length_append]
        omega

theorem starts (h : Cut cs column pieces) :
    ∀ piece ∈ pieces, ∃ c tail, piece.2 = c :: tail ∧ isBlank c = false := by
  induction h with
  | nil column => simp
  | blank hblank hrest ih => exact ih
  | lexeme hsolid htail hrest ih =>
    intro piece hpiece
    rcases List.mem_cons.mp hpiece with rfl | hpiece
    · exact ⟨_, _, rfl, hsolid⟩
    · exact ih piece hpiece

theorem columns (h : Cut cs column pieces) : pieces.Pairwise fun a b => a.1 < b.1 := by
  induction h with
  | nil column => exact List.Pairwise.nil
  | blank hblank hrest ih => exact ih
  | @lexeme c tail cs column pieces hsolid htail hrest ih =>
    refine List.pairwise_cons.mpr ⟨?_, ih⟩
    intro piece hpiece
    obtain ⟨before, after, hpieces⟩ := List.append_of_mem hpiece
    obtain ⟨front, -, -, -, hk⟩ := hrest.split hpieces
    rw [hk, List.length_cons]
    omega

/-- Set off from what follows, a lexeme is a lexeme again. -/
theorem again (h : Cut cs column pieces) :
    ∀ piece ∈ pieces, ∀ (rest : List Char) (k : Nat), SetOff rest →
      lexemes (piece.2 ++ rest) k = (k, piece.2) :: lexemes rest (k + piece.2.length) := by
  induction h with
  | nil column => simp
  | blank hblank hrest ih => exact ih
  | lexeme hsolid htail hrest ih =>
    intro piece hpiece more k hmore
    rcases List.mem_cons.mp hpiece with rfl | hpiece
    · exact lexemes_cons hsolid (htail.again more hmore) k
    · exact ih piece hpiece more k hmore

end Cut

/-- Texts that are lexemes by themselves are found again with single blanks between them. -/
theorem lexemes_join {words : List (List Char)}
    (h : ∀ w ∈ words, ∀ (rest : List Char) (k : Nat), SetOff rest →
      lexemes (w ++ rest) k = (k, w) :: lexemes rest (k + w.length)) (column : Nat) :
    (lexemes (join [' '] words) column).map (·.2) = words := by
  induction words generalizing column with
  | nil => simp [join, lexemes]
  | cons w words ih =>
    have hfirst := h w List.mem_cons_self
    have hrest := ih fun v hv => h v (List.mem_cons_of_mem w hv)
    cases words with
    | nil =>
      have hwhole := hfirst [] column (by simp [SetOff, Stops])
      rw [List.append_nil] at hwhole
      simp [join, hwhole, lexemes]
    | cons next words =>
      have hoff : SetOff (' ' :: join [' '] (next :: words)) := stops_cons (by decide)
      have hblank : isBlank ' ' = true := by decide
      rw [join_cons_cons, List.append_assoc, List.singleton_append, hfirst _ column hoff, lexemes,
        if_pos hblank, List.map_cons, hrest]

/-- Classifying changes neither the columns nor the texts, and fails if it fails for one of them. -/
theorem classify_all_iff {line : Nat} {pieces : List (Nat × List Char)} {tokens : List Token} :
    classifyAll line pieces = .ok tokens ↔
      tokens.map (fun t => (t.column, t.text)) = pieces ∧
        ∀ t ∈ tokens, t.line = line ∧ classify t.text = .ok t.kind := by
  induction pieces generalizing tokens with
  | nil =>
    rw [classifyAll, Except.ok.injEq]
    constructor
    · rintro rfl
      simp
    · rintro ⟨hnil, -⟩
      exact (List.map_eq_nil_iff.mp hnil).symm
  | cons piece pieces ih =>
    constructor
    · intro h
      obtain ⟨kind, hkind, h⟩ := bind_ok h
      obtain ⟨rest, hrest, h⟩ := bind_ok h
      obtain rfl := Except.ok.inj h
      obtain ⟨htexts, hkinds⟩ := ih.mp hrest
      refine ⟨by rw [List.map_cons, htexts], ?_⟩
      intro t ht
      rcases List.mem_cons.mp ht with rfl | ht
      · exact ⟨rfl, hkind⟩
      · exact hkinds t ht
    · rintro ⟨hpieces, hkinds⟩
      cases tokens with
      | nil => simp at hpieces
      | cons t tokens =>
        obtain ⟨rfl, hmore⟩ := List.cons.inj hpieces
        obtain ⟨hline, hkind⟩ := hkinds t List.mem_cons_self
        have hrest := ih.mpr ⟨hmore, fun u hu => hkinds u (List.mem_cons_of_mem t hu)⟩
        subst hline
        simp only [classifyAll, hkind, hrest]
        rfl

theorem classify_all_ok {pieces : List (Nat × List Char)}
    (h : ∀ piece ∈ pieces, ∃ kind, classify piece.2 = .ok kind) (line : Nat) :
    ∃ tokens, classifyAll line pieces = .ok tokens := by
  induction pieces with
  | nil => exact ⟨[], rfl⟩
  | cons piece pieces ih =>
    obtain ⟨kind, hkind⟩ := h piece List.mem_cons_self
    obtain ⟨tokens, htokens⟩ := ih fun p hp => h p (List.mem_cons_of_mem piece hp)
    refine ⟨⟨kind, piece.2, line, piece.1⟩ :: tokens, ?_⟩
    simp only [classifyAll, hkind, htokens]
    rfl

/-- The kind of a token is decided by its text. -/
theorem kinds_of_texts {tokens tokens' : List Token}
    (h : ∀ t ∈ tokens, classify t.text = .ok t.kind)
    (h' : ∀ t ∈ tokens', classify t.text = .ok t.kind)
    (htexts : tokens.map (·.text) = tokens'.map (·.text)) :
    tokens.map (fun t => (t.kind, t.text)) = tokens'.map fun t => (t.kind, t.text) := by
  induction tokens generalizing tokens' with
  | nil =>
    have hnil : tokens' = [] := by simpa using htexts.symm
    rw [hnil]
  | cons t tokens ih =>
    cases tokens' with
    | nil => simp at htexts
    | cons t' tokens' =>
      rw [List.map_cons, List.map_cons] at htexts
      obtain ⟨htext, hrest⟩ := List.cons.inj htexts
      have hkind : t.kind = t'.kind := by
        have hsame := h t List.mem_cons_self
        rw [htext, h' t' List.mem_cons_self] at hsame
        exact (Except.ok.inj hsame).symm
      have hkinds := ih (fun u hu => h u (List.mem_cons_of_mem t hu))
        (fun u hu => h' u (List.mem_cons_of_mem t' hu)) hrest
      simp only [List.map_cons, hkind, htext, hkinds]

structure Follows (cs : List Char) (before : List Token) (t : Token) (front : List Char) :
    Prop where
  text : ∃ rest, cs = front ++ (t.text ++ rest)
  front : dense front = before.flatMap (·.text)
  start : ∃ c tail, t.text = c :: tail ∧ isBlank c = false

section Line

variable {line : Nat} {cs : List Char} {tokens : List Token} (h : ofLine line cs = .ok tokens)
include h

theorem line_pieces : tokens.map (fun t => (t.column, t.text)) = lexemes cs 1 :=
  (classify_all_iff.mp h).1

theorem line_texts : tokens.flatMap (·.text) = dense cs := by
  have hpieces := (lexemes_cut cs 1).dense
  rwa [← line_pieces h, List.flatMap_map] at hpieces

theorem line_kinds : ∀ t ∈ tokens, classify t.text = .ok t.kind :=
  fun t ht => ((classify_all_iff.mp h).2 t ht).2

/-- A token stands where its column says, behind the tokens before it. -/
theorem line_split {before after : List Token} {t : Token} (ht : tokens = before ++ t :: after) :
    ∃ front, Follows cs before t front ∧ t.column = 1 + front.length ∧ t.line = line := by
  have hpieces := line_pieces h
  rw [ht, List.map_append, List.map_cons] at hpieces
  obtain ⟨front, rest, hcs, hdense, hcolumn⟩ := (lexemes_cut cs 1).split hpieces.symm
  rw [List.flatMap_map] at hdense
  have hsolid := (lexemes_cut cs 1).starts (t.column, t.text) (by simp [← hpieces])
  exact ⟨front, ⟨⟨rest, hcs⟩, hdense, hsolid⟩, hcolumn,
    ((classify_all_iff.mp h).2 t (by simp [ht])).1⟩

theorem line_again (line' : Nat) : ∃ again,
    ofLine line' (join [' '] (tokens.map (·.text))) = .ok again ∧
      again.map (fun t => (t.kind, t.text)) = tokens.map fun t => (t.kind, t.text) := by
  have hlexemes : (lexemes (join [' '] (tokens.map (·.text))) 1).map (·.2) =
      tokens.map (·.text) := by
    apply lexemes_join
    intro w hw
    obtain ⟨t, ht, rfl⟩ := List.mem_map.mp hw
    have hpiece : (t.column, t.text) ∈ lexemes cs 1 := by
      rw [← line_pieces h]
      exact List.mem_map_of_mem ht
    exact (lexemes_cut cs 1).again _ hpiece
  have hkinds : ∀ piece ∈ lexemes (join [' '] (tokens.map (·.text))) 1,
      ∃ kind, classify piece.2 = .ok kind := by
    intro piece hpiece
    have htext := List.mem_map_of_mem (f := Prod.snd) hpiece
    rw [hlexemes] at htext
    obtain ⟨t, ht, hsame⟩ := List.mem_map.mp htext
    exact ⟨t.kind, hsame ▸ line_kinds h t ht⟩
  obtain ⟨again, hagain⟩ := classify_all_ok hkinds line'
  refine ⟨again, hagain, kinds_of_texts (line_kinds hagain) (line_kinds h) ?_⟩
  rw [← hlexemes, ← line_pieces hagain, List.map_map]
  rfl

end Line

/-- The tokens of a line are its characters without the blanks, in order, each token at its column.
Their texts with single blanks between them have the same tokens again, up to the columns. -/
theorem line_tokens_faithful {line : Nat} {cs : List Char} {tokens : List Token}
    (h : ofLine line cs = .ok tokens) :
    tokens.flatMap (·.text) = cs.filter (fun c => !isBlank c) ∧
      (∀ t ∈ tokens, 1 ≤ t.column ∧
        slice cs (t.column - 1) (t.column - 1 + t.text.length) = t.text) ∧
      tokens.Pairwise (fun t u => t.column < u.column) ∧
      ∀ line', ∃ again, ofLine line' (join [' '] (tokens.map (·.text))) = .ok again ∧
        again.map (fun t => (t.kind, t.text)) = tokens.map fun t => (t.kind, t.text) := by
  refine ⟨line_texts h, ?_, ?_, line_again h⟩
  · intro t ht
    obtain ⟨before, after, htokens⟩ := List.append_of_mem ht
    obtain ⟨front, hfollows, hcolumn, -⟩ := line_split h htokens
    obtain ⟨rest, rfl⟩ := hfollows.text
    have hplace : t.column - 1 = front.length := by omega
    refine ⟨by omega, ?_⟩
    rw [slice, hplace, List.drop_left, Nat.add_sub_cancel_left, List.take_left]
  · have hcolumns := (lexemes_cut cs 1).columns
    rwa [← line_pieces h, List.pairwise_map] at hcolumns

def mixedLine : List Char := " tocar re#4  1.5.2\x7bação\x7d; b".toList

def mixedTokens : List Token :=
  [⟨.keyword, "tocar".toList, 3, 2⟩, ⟨.note, "re".toList, 3, 8⟩, ⟨.unknown, "#".toList, 3, 10⟩,
   ⟨.number, "4".toList, 3, 11⟩, ⟨.number, "1.5".toList, 3, 14⟩,
   ⟨.unknown, ".2\x7bação\x7d;".toList, 3, 17⟩, ⟨.note, "b".toList, 3, 27⟩]

theorem mixed_line_faithful :
    ofLine 3 mixedLine = .ok mixedTokens ∧
      mixedTokens.flatMap (·.text) = mixedLine.filter (fun c => !isBlank c) ∧
      (∀ t ∈ mixedTokens, 1 ≤ t.column ∧
        slice mixedLine (t.column - 1) (t.column - 1 + t.text.length) = t.text) ∧
      mixedTokens.Pairwise (fun t u => t.column < u.column) ∧
      ∃ again, ofLine 1 (join [' '] (mixedTokens.map (·.text))) = .ok again ∧
        again.map (fun t => (t.kind, t.text)) = mixedTokens.map fun t => (t.kind, t.text) := by
  have hread : (ofLine 3 mixedLine).toOption = some mixedTokens := by decide +kernel
  have h := Act.ok_of_option hread
  obtain ⟨htexts, hplaces, hcolumns, hagain⟩ := line_tokens_faithful h
  exact ⟨h, htexts, hplaces, hcolumns, hagain 1⟩

structure Covers (tokens : List Token) (cs : List Char) : Prop where
  text : tokens.flatMap (·.text) = dense cs
  kinds : ∀ t ∈ tokens, classify t.text = .ok t.kind

theorem of_lines_covers {line : Nat} {rows : List (List Char)} {tokens : List Token}
    (h : ofLines line rows = .ok tokens) :
    tokens.flatMap (·.text) = rows.flatMap dense ∧ ∀ t ∈ tokens, classify t.text = .ok t.kind := by
  induction rows generalizing line tokens with
  | nil =>
    obtain rfl : [] = tokens := Except.ok.inj h
    simp
  | cons row rows ih =>
    obtain ⟨here, hhere, h⟩ := bind_ok h
    obtain ⟨rest, hrest, h⟩ := bind_ok h
    obtain rfl := Except.ok.inj h
    obtain ⟨htext, hkinds⟩ := ih hrest
    constructor
    · rw [List.flatMap_append, List.flatMap_cons, line_texts hhere, dense_strip, htext]
    · intro t ht
      rcases List.mem_append.mp ht with ht | ht
      · exact line_kinds hhere t ht
      · exact hkinds t ht

theorem scan_covers {cs : List Char} {tokens : List Token} (h : scan cs = .ok tokens) :
    Covers tokens (Source.dropBlockComments .file cs) := by
  obtain ⟨htext, hkinds⟩ := of_lines_covers h
  exact ⟨htext.trans (dense_lines _), hkinds⟩

end Melody.Token
