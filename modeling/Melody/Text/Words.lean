import Melody.Text.Char

/-!
# Cutting text

Texts are lists of characters while they are read. Stripping, splitting and searching are
recursions over that list.
-/

set_option autoImplicit false

namespace Melody.Text

def strip (cs : List Char) : List Char :=
  ((cs.dropWhile isBlank).reverse.dropWhile isBlank).reverse

def splitOn (sep : Char) : List Char → List (List Char)
  | [] => [[]]
  | c :: cs =>
    if c = sep then [] :: splitOn sep cs
    else
      match splitOn sep cs with
      | [] => [[c]]
      | piece :: rest => (c :: piece) :: rest

def lines (cs : List Char) : List (List Char) :=
  splitOn '\n' cs

private def wordsAux : List Char → List Char → List (List Char)
  | [], [] => []
  | [], word => [word.reverse]
  | c :: cs, word =>
    if isBlank c then
      match word with
      | [] => wordsAux cs []
      | _ => word.reverse :: wordsAux cs []
    else wordsAux cs (c :: word)

def words (cs : List Char) : List (List Char) :=
  wordsAux cs []

private theorem words_aux_solid {cs : List Char} (h : ∀ c ∈ cs, isBlank c = false)
    (word : List Char) : wordsAux cs word = wordsAux [] (cs.reverse ++ word) := by
  induction cs generalizing word with
  | nil => rfl
  | cons c cs ih =>
    have hstep : wordsAux (c :: cs) word = wordsAux cs (c :: word) := by
      simp [wordsAux, h c List.mem_cons_self]
    rw [hstep, ih fun d hd => h d (List.mem_cons_of_mem c hd), List.reverse_cons,
      List.append_assoc, List.singleton_append]

/-- A text without blanks is one word. -/
theorem words_solid {cs : List Char} (hne : cs ≠ []) (h : ∀ c ∈ cs, isBlank c = false) :
    words cs = [cs] := by
  have hword := words_aux_solid h []
  rw [List.append_nil] at hword
  cases hrev : cs.reverse with
  | nil => exact absurd (List.reverse_eq_nil_iff.mp hrev) hne
  | cons d ds =>
    rw [words, hword, hrev, wordsAux, ← hrev, List.reverse_reverse]
    exact List.cons_ne_nil d ds

private theorem words_aux_gap {gap : List Char} (h : ∀ c ∈ gap, isBlank c) (word : List Char) :
    wordsAux gap word = wordsAux [] word := by
  induction gap generalizing word with
  | nil => rfl
  | cons c gap ih =>
    have hrest := ih (fun d hd => h d (List.mem_cons_of_mem c hd)) []
    have hblank := h c List.mem_cons_self
    cases word with
    | nil => simpa [wordsAux, hblank] using hrest
    | cons d word => simpa [wordsAux, hblank] using hrest

private theorem words_aux_end {gap : List Char} (h : ∀ c ∈ gap, isBlank c) (cs word : List Char) :
    wordsAux (cs ++ gap) word = wordsAux cs word := by
  induction cs generalizing word with
  | nil => exact words_aux_gap h word
  | cons c cs ih =>
    cases hblank : isBlank c with
    | false => simpa [wordsAux, hblank] using ih (c :: word)
    | true =>
      cases word with
      | nil => simpa [wordsAux, hblank] using ih []
      | cons d word => simpa [wordsAux, hblank] using ih []

theorem words_strip (cs : List Char) : words (strip cs) = words cs := by
  have hfront (cs : List Char) : words (cs.dropWhile isBlank) = words cs := by
    induction cs with
    | nil => rfl
    | cons c cs ih =>
      cases hblank : isBlank c with
      | false => rw [List.dropWhile_cons_of_neg (by simp [hblank])]
      | true =>
        rw [List.dropWhile_cons_of_pos hblank, ih]
        simp [words, wordsAux, hblank]
  have hback (cs : List Char) : words (cs.reverse.dropWhile isBlank).reverse = words cs := by
    have hparts : (cs.reverse.dropWhile isBlank).reverse ++ (cs.reverse.takeWhile isBlank).reverse =
        cs := by
      rw [← List.reverse_append, List.takeWhile_append_dropWhile, List.reverse_reverse]
    have hgap : ∀ c ∈ (cs.reverse.takeWhile isBlank).reverse, isBlank c := by
      intro c hc
      exact List.all_eq_true.mp List.all_takeWhile c (List.mem_reverse.mp hc)
    have hwords := words_aux_end hgap (cs.reverse.dropWhile isBlank).reverse []
    rw [hparts] at hwords
    exact hwords.symm
  rw [strip, hback, hfront]

def dropText? : List Char → List Char → Option (List Char)
  | [], cs => some cs
  | _ :: _, [] => none
  | t :: ts, c :: cs => if t = c then dropText? ts cs else none

def occurs (needle : List Char) : List Char → Bool
  | [] => needle.isEmpty
  | c :: cs => (dropText? needle (c :: cs)).isSome || occurs needle cs

private def splitTextAux (sep : List Char) : Nat → List Char → List Char → List (List Char)
  | 0, cs, piece => [piece.reverse ++ cs]
  | _ + 1, [], piece => [piece.reverse]
  | fuel + 1, c :: cs, piece =>
    match dropText? sep (c :: cs) with
    | some rest => piece.reverse :: splitTextAux sep fuel rest []
    | none => splitTextAux sep fuel cs (c :: piece)

def splitText (sep cs : List Char) : List (List Char) :=
  splitTextAux sep (cs.length + 1) cs []

theorem drop_text_eq {w cs rest : List Char} (h : dropText? w cs = some rest) :
    cs = w ++ rest := by
  fun_induction dropText? w cs with
  | case1 cs => exact Option.some.inj h
  | case2 => contradiction
  | case3 t ts cs ih => rw [ih h, List.cons_append]
  | case4 => contradiction

private theorem split_aux_piece (sep : List Char) (fuel : Nat) (cs piece : List Char) :
    splitTextAux sep fuel cs piece =
      (splitTextAux sep fuel cs []).modifyHead (piece.reverse ++ ·) := by
  induction fuel generalizing cs piece with
  | zero => rfl
  | succ fuel ih =>
    cases cs with
    | nil => simp [splitTextAux]
    | cons c cs =>
      cases hdrop : dropText? sep (c :: cs) with
      | some rest => simp [splitTextAux, hdrop]
      | none =>
        simp only [splitTextAux, hdrop]
        rw [ih cs (c :: piece), ih cs [c], List.modifyHead_modifyHead]
        congr 1
        funext rest
        simp

/-- The fuel is enough as long as it exceeds the text. -/
private theorem split_aux_fuel {sep : List Char} (hsep : sep ≠ []) {m n : Nat}
    {cs piece : List Char} (hm : cs.length < m) (hn : cs.length < n) :
    splitTextAux sep m cs piece = splitTextAux sep n cs piece := by
  induction m generalizing n cs piece with
  | zero => omega
  | succ m ih =>
    obtain ⟨n, rfl⟩ : ∃ k, n = k + 1 := ⟨n - 1, by omega⟩
    cases cs with
    | nil => rfl
    | cons c cs =>
      rw [List.length_cons] at hm hn
      cases hdrop : dropText? sep (c :: cs) with
      | some rest =>
        have hlength := congrArg List.length (drop_text_eq hdrop)
        have hpos := List.length_pos_iff.mpr hsep
        rw [List.length_cons, List.length_append] at hlength
        simp only [splitTextAux, hdrop]
        rw [ih (n := n) (by omega) (by omega)]
      | none =>
        simp only [splitTextAux, hdrop]
        exact ih (by omega) (by omega)

/-- A text that starts with the separator has an empty first piece. -/
theorem split_text_found {sep cs rest : List Char} (hsep : sep ≠ [])
    (h : dropText? sep cs = some rest) : splitText sep cs = [] :: splitText sep rest := by
  have hlength := congrArg List.length (drop_text_eq h)
  have hpos := List.length_pos_iff.mpr hsep
  rw [List.length_append] at hlength
  cases cs with
  | nil =>
    rw [List.length_nil] at hlength
    omega
  | cons c cs =>
    rw [List.length_cons] at hlength
    simp only [splitText, List.length_cons, splitTextAux, h]
    rw [split_aux_fuel hsep (n := rest.length + 1) (by omega) (by omega)]
    rfl

/-- Otherwise its first character belongs to the first piece. -/
theorem split_text_missed {sep cs : List Char} {c : Char} (h : dropText? sep (c :: cs) = none) :
    splitText sep (c :: cs) = (splitText sep cs).modifyHead (c :: ·) := by
  simp only [splitText, List.length_cons, splitTextAux, h]
  exact split_aux_piece sep _ cs [c]

def join (sep : List Char) : List (List Char) → List Char
  | [] => []
  | [piece] => piece
  | piece :: rest => piece ++ sep ++ join sep rest

def replace (old new cs : List Char) : List Char :=
  join new (splitText old cs)

end Melody.Text
