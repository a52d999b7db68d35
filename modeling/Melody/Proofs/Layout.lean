import Melody.Proofs.Passage

/-!
# The texts of a passage

Without the blanks at its ends a text of a passage is still one. Its braces are those of its
blocks, so a block of a shallow passage is recognised as a whole, and no closing brace is followed
by the word that ends a parallel block.
-/

set_option autoImplicit false

namespace Melody.Command

open Melody.Text

def Puts (text : List Char → List Char) : Prop :=
  ∃ c middle d, (isWordChar c ∧ c ≠ 'f') ∧ isBlank d = false ∧
    ∀ tail, text tail = c :: (middle ++ d :: tail)

theorem statement_puts (s : Statement) : Puts s.text := by
  cases s with
  | play note length => exact ⟨'t', _, ';', by decide, by decide, fun _ => rfl⟩
  | pause length => exact ⟨'p', _, ';', by decide, by decide, fun _ => rfl⟩
  | instrument name => exact ⟨'i', _, ';', by decide, by decide, fun _ => rfl⟩

theorem branch_puts (left right : Word) (first second : List Char) :
    Puts (branchText left right first second) := by
  refine ⟨'s', "e (".toList ++ (equality left right ++ (") \x7b".toList ++ (first ++
    ("\x7d senao \x7b".toList ++ second)))), '}', by decide, by decide, fun tail => ?_⟩
  unfold branchText
  simp only [List.append_assoc]
  rfl

theorem for_each_puts (name collection : Word) (body : List Char) :
    Puts (forEachText name collection body) := by
  refine ⟨'p', "ara cada ".toList ++ (name.1 ++ (" em ".toList ++ (collection.1 ++
    (" \x7b".toList ++ body)))), '}', by decide, by decide, fun tail => ?_⟩
  unfold forEachText
  simp only [List.append_assoc]
  rfl

theorem loop_puts (times : Nat) (body : List Char) : Puts (loopText times body) := by
  refine ⟨'r', "epetir ".toList ++ (Nat.toDigits 10 times ++ (" vezes \x7b".toList ++ body)), '}',
    by decide, by decide, fun tail => ?_⟩
  unfold loopText
  simp only [List.append_assoc]
  rfl

theorem Puts.append {text : List Char → List Char} (h : Puts text) (cs tail : List Char) :
    text cs ++ tail = text (cs ++ tail) := by
  obtain ⟨c, middle, d, -, -, htext⟩ := h
  rw [htext, htext, List.cons_append, List.append_assoc, List.cons_append]

theorem Puts.split {text : List Char → List Char} (h : Puts text) (tail : List Char) :
    text tail = text [] ++ tail := by
  rw [h.append, List.nil_append]

theorem Puts.start {text : List Char → List Char} (h : Puts text) (tail : List Char) :
    Stops isBlank (text tail) := by
  obtain ⟨c, middle, d, ⟨hc, -⟩, -, htext⟩ := h
  rw [htext]
  exact stops_cons (word_not_blank hc)

theorem Puts.stop {text : List Char → List Char} (h : Puts text) {tail : List Char}
    (ht : Stops isBlank tail.reverse) (before : List Char) :
    Stops isBlank (before ++ text tail).reverse := by
  obtain ⟨c, middle, d, -, hd, htext⟩ := h
  have hrev : (before ++ text tail).reverse =
      tail.reverse ++ d :: (middle.reverse ++ c :: before.reverse) := by
    rw [htext]
    simp
  rw [hrev]
  exact stops_append ht (stops_cons hd)

theorem Puts.ne_nil {text : List Char → List Char} (h : Puts text) (tail : List Char) :
    text tail ≠ [] := by
  obtain ⟨c, middle, d, -, -, htext⟩ := h
  rw [htext]
  exact List.cons_ne_nil _ _

theorem Puts.length_lt {text : List Char → List Char} (h : Puts text) (tail : List Char) :
    tail.length < (text tail).length := by
  obtain ⟨c, middle, d, -, -, htext⟩ := h
  rw [htext]
  simp only [List.length_cons, List.length_append]
  omega

/-- A passage is over, or a statement and blanks before it stand in front of the rest; both the
blanks and the rest can be others. -/
theorem written_cases {after : Bool} {p : Passage} {cs : List Char} (h : Written after p cs) :
    (p = .stop ∧ ∀ c ∈ cs, isBlank c) ∨
      (p ≠ .stop ∧ ∃ gap text rest tail, cs = gap ++ text tail ∧ Gap after gap ∧ Puts text ∧
        Written true rest tail ∧
        ∀ after' gap' tail', Gap after' gap' → Written true rest tail' →
          Written after' p (gap' ++ text tail')) := by
  cases h with
  | stop hgap => exact .inl ⟨rfl, hgap.blank⟩
  | @line _ gap cs s rest hgap hrest =>
    exact .inr ⟨nofun, gap, s.text, rest, cs, rfl, hgap, statement_puts s, hrest,
      fun _ _ _ hgap hrest => .line hgap hrest⟩
  | @branch _ gap first second cs left right _ _ rest hgap hfirst hsecond hrest =>
    exact .inr ⟨nofun, gap, branchText left right first second, rest, cs, rfl, hgap,
      branch_puts left right first second, hrest,
      fun _ _ _ hgap hrest => .branch hgap hfirst hsecond hrest⟩
  | @forEach _ gap inner cs name collection _ rest hgap hbody hrest =>
    exact .inr ⟨nofun, gap, forEachText name collection inner, rest, cs, rfl, hgap,
      for_each_puts name collection inner, hrest,
      fun _ _ _ hgap hrest => .forEach hgap hbody hrest⟩
  | @loop _ gap inner cs times _ rest hgap hbody hrest =>
    exact .inr ⟨nofun, gap, loopText times inner, rest, cs, rfl, hgap, loop_puts times inner,
      hrest, fun _ _ _ hgap hrest => .loop hgap hbody hrest⟩

/-- More blanks can stand in front. -/
theorem written_lead {after after' : Bool} {p : Passage} {gap cs : List Char}
    (h : Written after p cs) (hg : Gap after' gap) : Written after' p (gap ++ cs) := by
  have hblank {gap' : List Char} (hg' : ∀ c ∈ gap', isBlank c) : ∀ c ∈ gap ++ gap', isBlank c :=
    fun c hc => (List.mem_append.mp hc).elim (hg.blank c) (hg' c)
  rcases written_cases h with ⟨rfl, hcs⟩ | ⟨-, gap', text, rest, tail, rfl, hg', -, hrest, hagain⟩
  · exact .stop ⟨hblank hcs, nofun⟩
  · rw [← List.append_assoc]
    exact hagain _ _ _ ⟨hblank hg'.blank, fun ha => List.append_ne_nil_of_left_ne_nil
      (hg.apart ha) gap'⟩ hrest

/-- The blanks behind the last statement can be left out. -/
theorem written_trim {after : Bool} {p : Passage} {cs : List Char} (h : Written after p cs) :
    ∃ core gap, cs = core ++ gap ∧ (∀ c ∈ gap, isBlank c) ∧ Written after p core ∧
      Stops isBlank core.reverse := by
  -- on the length, because the rest behind a statement is only known by `written_cases`
  induction hn : cs.length using Nat.strongRecOn generalizing after p cs with
  | ind n ih =>
    rcases written_cases h with ⟨rfl, hblank⟩ |
      ⟨-, gap, text, rest, tail, rfl, hgap, hputs, hrest, hagain⟩
    · exact ⟨[], cs, rfl, hblank, .stop gap_nil, nofun⟩
    · have hlength : tail.length < n := by
        have := hputs.length_lt tail
        simp only [List.length_append] at hn
        omega
      obtain ⟨core, gap', rfl, hgap', hcore, hstop⟩ := ih _ hlength hrest rfl
      refine ⟨gap ++ text core, gap', ?_, hgap', hagain _ _ _ hgap hcore, hputs.stop hstop gap⟩
      rw [List.append_assoc, hputs.append]

/-- A text of a passage without the blanks at its ends is one, and empty only if the passage is. -/
theorem written_strip {after : Bool} {p : Passage} {cs : List Char} (h : Written after p cs) :
    Written false p (strip cs) ∧ Tight (strip cs) ∧ (p ≠ .stop → strip cs ≠ []) := by
  obtain ⟨core, gap', rfl, hgap', hcore, hstop⟩ := written_trim h
  rcases written_cases hcore with ⟨rfl, hblank⟩ |
    ⟨hp, gap, text, rest, tail, rfl, hgap, hputs, hrest, hagain⟩
  · have hnil : Tight [] := ⟨nofun, nofun⟩
    have hstrip : strip (core ++ gap') = [] := tight_strip hblank hnil hgap'
    rw [hstrip]
    exact ⟨.stop gap_nil, hnil, fun hp => absurd rfl hp⟩
  · have htight : Tight (text tail) := ⟨hputs.start tail, by
      rw [List.reverse_append] at hstop
      cases hrev : (text tail).reverse with
      | nil => exact nofun
      | cons c u =>
        rw [hrev] at hstop
        exact stops_cons (hstop c rfl)⟩
    rw [List.append_assoc, tight_strip hgap.blank htight hgap']
    exact ⟨hagain false [] tail gap_nil hrest, htight, fun _ => hputs.ne_nil tail⟩

def Passes (inner : Bool) (w : List Char) : Prop :=
  ∀ rest, block? inner (w ++ rest) = (block? inner rest).map fun (a, b) => (w ++ a, b)

theorem passes_append {inner : Bool} {u w : List Char} (hu : Passes inner u)
    (hw : Passes inner w) : Passes inner (u ++ w) := by
  intro rest
  rw [List.append_assoc, hu, hw, Option.map_map]
  simp only [Function.comp_def, List.append_assoc]

theorem passes_cons {inner inner' : Bool} {c : Char} (ho : openAfter? inner c = some inner')
    {w rest : List Char} {found : Option (List Char × List Char)}
    (h : block? inner' (w ++ rest) = found.map fun (a, b) => (w ++ a, b)) :
    block? inner ((c :: w) ++ rest) = found.map fun (a, b) => ((c :: w) ++ a, b) := by
  rw [List.cons_append, block_go_on ho, h, Option.map_map]
  rfl

def Braceless (w : List Char) : Prop :=
  ∀ c ∈ w, c ≠ '{' ∧ c ≠ '}'

instance (w : List Char) : Decidable (Braceless w) :=
  inferInstanceAs (Decidable (∀ c ∈ w, c ≠ '{' ∧ c ≠ '}'))

theorem passes_braceless {inner : Bool} {w : List Char} (h : Braceless w) : Passes inner w := by
  intro rest
  induction w with
  | nil => simp
  | cons c w ih =>
    have hc := h c (by simp)
    exact passes_cons (by simp [openAfter?, hc.1, hc.2]) (ih fun c hmem => h c (by simp [hmem]))

/-- A block without blocks inside is passed by the block that holds it. -/
theorem passes_block {head body tail : List Char} (hh : Braceless head) (hb : Passes true body)
    (ht : Passes false tail) : Passes false (head ++ '{' :: (body ++ '}' :: tail)) := by
  refine passes_append (passes_braceless hh) fun rest => passes_cons rfl ?_
  rw [List.append_assoc, hb, List.cons_append, block_go_on (c := '}') rfl, ht, Option.map_map,
    Option.map_map]
  simp only [Function.comp_def, List.append_assoc, List.cons_append]

theorem word_braceless {w : List Char} (h : IsWord w) : Braceless w := by
  intro c hc
  have hword := h.chars c hc
  constructor
  · rintro rfl
    exact absurd hword (by decide)
  · rintro rfl
    exact absurd hword (by decide)

theorem gap_braceless {gap : List Char} (h : ∀ c ∈ gap, isBlank c) : Braceless gap := by
  intro c hc
  have hblank := h c hc
  constructor
  · rintro rfl
    exact absurd hblank (by decide)
  · rintro rfl
    exact absurd hblank (by decide)

theorem braceless_append {u w : List Char} (hu : Braceless u) (hw : Braceless w) :
    Braceless (u ++ w) := by
  intro c hc
  rcases List.mem_append.mp hc with hc | hc
  · exact hu c hc
  · exact hw c hc

theorem braceless_cons {c : Char} {w : List Char} (hc : c ≠ '{' ∧ c ≠ '}') (hw : Braceless w) :
    Braceless (c :: w) :=
  braceless_append (u := [c]) (by simpa [Braceless] using hc) hw

theorem line_braceless (s : Statement) : Braceless s.line := by
  cases s with
  | play note length =>
    exact braceless_append (by decide) (braceless_append (word_braceless note.2)
      (braceless_cons (by decide) (word_braceless (length_word length))))
  | pause length => exact braceless_append (by decide) (word_braceless (length_word length))
  | instrument name => exact braceless_append (by decide) (word_braceless name.2)

theorem equality_braceless (left right : Word) : Braceless (equality left right) :=
  braceless_append (word_braceless left.2) (braceless_append (by decide) (word_braceless right.2))

section Split

variable {gap : List Char} (hgap : ∀ c ∈ gap, isBlank c) (cs : List Char)
include hgap

theorem statement_split (s : Statement) :
    ∃ head, Braceless head ∧ gap ++ s.text cs = head ++ cs := by
  refine ⟨gap ++ (s.line ++ [';']), ?_, ?_⟩
  · exact braceless_append (gap_braceless hgap) (braceless_append (line_braceless s) (by decide))
  · simp only [Statement.text, List.append_assoc, List.singleton_append]

theorem branch_split (left right : Word) (first second : List Char) :
    ∃ head, Braceless head ∧ gap ++ branchText left right first second cs =
      head ++ '{' :: (first ++ '}' :: (" senao ".toList ++ '{' :: (second ++ '}' :: cs))) := by
  refine ⟨gap ++ ("se (".toList ++ (equality left right ++ ") ".toList)), ?_, ?_⟩
  · exact braceless_append (gap_braceless hgap) <| braceless_append (by decide) <|
      braceless_append (equality_braceless left right) (by decide)
  · unfold branchText
    simp only [List.append_assoc]
    rfl

theorem for_each_split (name collection : Word) (body : List Char) :
    ∃ head, Braceless head ∧ gap ++ forEachText name collection body cs =
      head ++ '{' :: (body ++ '}' :: cs) := by
  refine ⟨gap ++ ("para cada ".toList ++ (name.1 ++ (" em ".toList ++
    (collection.1 ++ [' '])))), ?_, ?_⟩
  · exact braceless_append (gap_braceless hgap) <| braceless_append (by decide) <|
      braceless_append (word_braceless name.2) <| braceless_append (by decide) <|
      braceless_append (word_braceless collection.2) (by decide)
  · unfold forEachText
    simp only [List.append_assoc]
    rfl

theorem loop_split (times : Nat) (body : List Char) :
    ∃ head, Braceless head ∧ gap ++ loopText times body cs =
      head ++ '{' :: (body ++ '}' :: cs) := by
  refine ⟨gap ++ ("repetir ".toList ++ (Nat.toDigits 10 times ++ " vezes ".toList)), ?_, ?_⟩
  · exact braceless_append (gap_braceless hgap) <| braceless_append (by decide) <|
      braceless_append (word_braceless (digits_word times)) (by decide)
  · unfold loopText
    simp only [List.append_assoc]
    rfl

end Split

def passable : Bool → Nat
  | true => 0
  | false => 1

/-- A shallow passage is passed by the block around it. -/
theorem written_passes {after : Bool} {p : Passage} {cs : List Char} (h : Written after p cs)
    (inner : Bool) (hd : p.depth ≤ passable inner) : Passes inner cs := by
  induction h generalizing inner with
  | stop hgap => exact passes_braceless (gap_braceless hgap.blank)
  | @line after gap cs s rest hgap hrest ih =>
    obtain ⟨head, hhead, hsplit⟩ := statement_split hgap.blank cs s
    rw [hsplit]
    exact passes_append (passes_braceless hhead) (ih inner hd)
  | @branch after gap first second cs left right a b rest hgap _ _ _ ih₁ ih₂ ih₃ =>
    cases inner with
    | true => simp [Passage.depth, passable] at hd
    | false =>
      have hd : max (max a.depth b.depth + 1) rest.depth ≤ 1 := hd
      obtain ⟨head, hhead, hsplit⟩ := branch_split hgap.blank cs left right first second
      rw [hsplit]
      exact passes_block hhead (ih₁ true (show _ ≤ 0 by omega)) <|
        passes_block (by decide) (ih₂ true (show _ ≤ 0 by omega)) (ih₃ false (show _ ≤ 1 by omega))
  | @forEach after gap inside cs name collection body rest hgap _ _ ih₁ ih₂ =>
    cases inner with
    | true => simp [Passage.depth, passable] at hd
    | false =>
      have hd : max (body.depth + 1) rest.depth ≤ 1 := hd
      obtain ⟨head, hhead, hsplit⟩ := for_each_split hgap.blank cs name collection inside
      rw [hsplit]
      exact passes_block hhead (ih₁ true (show _ ≤ 0 by omega)) (ih₂ false (show _ ≤ 1 by omega))
  | @loop after gap inside cs times body rest hgap _ _ ih₁ ih₂ =>
    cases inner with
    | true => simp [Passage.depth, passable] at hd
    | false =>
      have hd : max (body.depth + 1) rest.depth ≤ 1 := hd
      obtain ⟨head, hhead, hsplit⟩ := loop_split hgap.blank cs times inside
      rw [hsplit]
      exact passes_block hhead (ih₁ true (show _ ≤ 0 by omega)) (ih₂ false (show _ ≤ 1 by omega))

/-- The body of a block is what a shallow passage is written as. -/
theorem block_written {p : Passage} {cs : List Char} {after : Bool} (h : Written after p cs)
    (hd : p.depth ≤ 1) (tail : List Char) :
    block? false (cs ++ '}' :: tail) = some (cs, tail) := by
  have hclose : block? false ('}' :: tail) = some ([], tail) := rfl
  rw [written_passes h false hd, hclose]
  simp only [Option.map_some, List.append_nil]

def Calm (cs : List Char) : Prop :=
  Stops (· == 'f') (skipBlanks cs)

def Safe : List Char → Prop
  | [] => True
  | c :: cs => (c = '}' → Calm cs) ∧ Safe cs

theorem safe_suffix {cs rest : List Char} (h : Safe cs) (hs : '}' :: rest <:+ cs) : Calm rest := by
  induction cs with
  | nil => simp at hs
  | cons c cs ih =>
    rcases List.suffix_cons_iff.mp hs with heq | htail
    · obtain ⟨rfl, rfl⟩ := List.cons.inj heq
      exact h.1 rfl
    · exact ih h.2 htail

theorem safe_braceless {w tail : List Char} (hw : Braceless w) (ht : Safe tail) :
    Safe (w ++ tail) := by
  induction w with
  | nil => exact ht
  | cons c w ih =>
    exact ⟨fun hc => absurd hc (hw c (by simp)).2, ih fun c hc => hw c (by simp [hc])⟩

theorem calm_gap {gap cs : List Char} (hg : ∀ c ∈ gap, isBlank c) (h : Calm cs) :
    Calm (gap ++ cs) := by
  unfold Calm skipBlanks
  rw [List.dropWhile_append_of_pos hg]
  exact h

theorem Puts.calm {text : List Char → List Char} (h : Puts text) {gap : List Char}
    (hg : ∀ c ∈ gap, isBlank c) (tail : List Char) : Calm (gap ++ text tail) := by
  refine calm_gap hg ?_
  have hstart := (take_while_stops (h.start tail)).2
  obtain ⟨c, middle, d, ⟨-, hc⟩, -, htext⟩ := h
  unfold Calm skipBlanks
  rw [hstart, htext]
  exact stops_cons (by simpa using hc)

/-- A block is safe if its body is. -/
theorem safe_block {head body tail : List Char} (hh : Braceless head) (ht : Safe tail)
    (hc : Calm tail) (hb : ∀ rest, Safe rest → Calm rest → Safe (body ++ rest)) :
    Safe (head ++ '{' :: (body ++ '}' :: tail)) :=
  safe_braceless hh ⟨nofun, hb _ ⟨fun _ => hc, ht⟩ (by simp [Calm, Stops, skipBlanks, isBlank])⟩

theorem written_safe {after : Bool} {p : Passage} {cs : List Char} (h : Written after p cs)
    {tail : List Char} (ht : Safe tail) (hc : Calm tail) :
    Safe (cs ++ tail) ∧ Calm (cs ++ tail) := by
  induction h generalizing tail with
  | stop hgap => exact ⟨safe_braceless (gap_braceless hgap.blank) ht, calm_gap hgap.blank hc⟩
  | @line after gap cs s rest hgap _ ih =>
    have hputs := statement_puts s
    rw [List.append_assoc, hputs.append]
    refine ⟨?_, hputs.calm hgap.blank _⟩
    obtain ⟨head, hhead, hsplit⟩ := statement_split hgap.blank (cs ++ tail) s
    rw [hsplit]
    exact safe_braceless hhead (ih ht hc).1
  | @branch after gap first second cs left right a b rest hgap _ _ _ ih₁ ih₂ ih₃ =>
    have hputs := branch_puts left right first second
    rw [List.append_assoc, hputs.append]
    refine ⟨?_, hputs.calm hgap.blank _⟩
    obtain ⟨head, hhead, hsplit⟩ := branch_split hgap.blank (cs ++ tail) left right first second
    obtain ⟨hsafe, hcalm⟩ := ih₃ ht hc
    rw [hsplit]
    refine safe_block hhead ?_ (by simp [Calm, Stops, skipBlanks, isBlank])
      fun rest hs hc => (ih₁ hs hc).1
    exact safe_block (by decide) hsafe hcalm fun rest hs hc => (ih₂ hs hc).1
  | @forEach after gap inside cs name collection body rest hgap _ _ ih₁ ih₂ =>
    have hputs := for_each_puts name collection inside
    rw [List.append_assoc, hputs.append]
    refine ⟨?_, hputs.calm hgap.blank _⟩
    obtain ⟨head, hhead, hsplit⟩ := for_each_split hgap.blank (cs ++ tail) name collection inside
    obtain ⟨hsafe, hcalm⟩ := ih₂ ht hc
    rw [hsplit]
    exact safe_block hhead hsafe hcalm fun rest hs hc => (ih₁ hs hc).1
  | @loop after gap inside cs times body rest hgap _ _ ih₁ ih₂ =>
    have hputs := loop_puts times inside
    rw [List.append_assoc, hputs.append]
    refine ⟨?_, hputs.calm hgap.blank _⟩
    obtain ⟨head, hhead, hsplit⟩ := loop_split hgap.blank (cs ++ tail) times inside
    obtain ⟨hsafe, hcalm⟩ := ih₂ ht hc
    rw [hsplit]
    exact safe_block hhead hsafe hcalm fun rest hs hc => (ih₁ hs hc).1

/-- A parallel block ends with its word behind a closing brace. -/
theorem parallel_close {cs body rest : List Char} (h : parallel? cs = some (body, rest)) :
    ∃ after, '}' :: after <:+ cs ∧ ¬ Calm after := by
  unfold parallel? at h
  obtain ⟨cs₁, h₁, h⟩ := Option.bind_eq_some_iff.mp h
  obtain ⟨⟨body', cs₂⟩, h₂, h⟩ := Option.bind_eq_some_iff.mp h
  obtain ⟨cs₃, h₃, -⟩ := Option.bind_eq_some_iff.mp h
  refine ⟨cs₂, (spaced_block_close h₂).trans (drop_text_suffix h₁), fun hcalm => ?_⟩
  have hword : skipBlanks cs₂ = 'f' :: ("im_paralelo".toList ++ cs₃) := drop_text_eq h₃
  have hstart : ('f' == 'f') = false := hcalm 'f' (by rw [hword]; rfl)
  contradiction

theorem no_parallels {after : Bool} {p : Passage} {cs : List Char} (h : Written after p cs) :
    findAll parallel? cs = [] := by
  have hnil : Safe [] := trivial
  obtain ⟨hsafe, -⟩ := written_safe h hnil (by simp [Calm, Stops, skipBlanks])
  rw [List.append_nil] at hsafe
  refine List.eq_nil_iff_forall_not_mem.mpr fun found hfound => ?_
  obtain ⟨v, rest, hv, hitem⟩ := find_from_item parallel_shrinks hfound
  obtain ⟨behind, hbehind, hnot⟩ := parallel_close hitem
  exact hnot (safe_suffix hsafe (hbehind.trans hv))

end Melody.Command
