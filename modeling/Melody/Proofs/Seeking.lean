import Melody.Proofs.Keywords
import Melody.Proofs.Layout

/-!
# Where blocks are found

A block is recognised by its keyword and by what follows it. In a text of a passage the two stand
together only at the start of a block, so a search finds the blocks of its shape that are shallow
enough, and nothing else.
-/

set_option autoImplicit false

namespace Melody.Command

open Melody.Text

def keyword : Shape → List Char
  | .branch => "se".toList
  | .forEach => "para".toList
  | .loop => "repetir".toList

def follows : Shape → List Char → Bool
  | .branch, cs => (dropText? ['('] (skipBlanks cs)).isSome
  | .forEach, cs => ((blanks? cs).bind (dropText? "cada".toList)).isSome
  | .loop, cs => ((blanks? cs).bind digits?).isSome

theorem seek_follows {rs : Readers} {shape : Shape} {cs rest : List Char} {r : Reading}
    (h : seek rs shape cs = some (r, rest)) :
    ∃ after, dropText? (keyword shape) cs = some after ∧ follows shape after := by
  cases shape with
  | branch =>
    obtain ⟨_, h, -⟩ := Option.map_eq_some_iff.mp h
    unfold conditional? at h
    obtain ⟨cs₁, h₁, h⟩ := Option.bind_eq_some_iff.mp h
    obtain ⟨cs₂, h₂, -⟩ := Option.bind_eq_some_iff.mp h
    exact ⟨cs₁, h₁, Option.isSome_of_eq_some h₂⟩
  | forEach =>
    obtain ⟨_, h, -⟩ := Option.map_eq_some_iff.mp h
    unfold iteration? at h
    obtain ⟨cs₁, h₁, h⟩ := Option.bind_eq_some_iff.mp h
    obtain ⟨cs₂, h₂, h⟩ := Option.bind_eq_some_iff.mp h
    obtain ⟨cs₃, h₃, -⟩ := Option.bind_eq_some_iff.mp h
    refine ⟨cs₁, h₁, ?_⟩
    rw [follows, h₂, Option.bind_some, h₃]
    rfl
  | loop =>
    obtain ⟨_, h, -⟩ := Option.map_eq_some_iff.mp h
    unfold repetition? at h
    obtain ⟨cs₁, h₁, h⟩ := Option.bind_eq_some_iff.mp h
    obtain ⟨cs₂, h₂, h⟩ := Option.bind_eq_some_iff.mp h
    obtain ⟨cs₃, h₃, -⟩ := Option.bind_eq_some_iff.mp h
    refine ⟨cs₁, h₁, ?_⟩
    rw [follows, h₂, Option.bind_some, h₃]
    rfl

theorem keyword_word (shape : Shape) : IsWord (keyword shape) := by
  cases shape
  all_goals exact ⟨by decide, by decide⟩

theorem blanks_stops {cs : List Char} (h : (blanks? cs).isSome) : Stops isWordChar cs := by
  cases cs with
  | nil => contradiction
  | cons c cs =>
    rw [blanks?] at h
    split_ifs at h with hc
    · exact stops_cons (blank_not_word hc)
    · contradiction

theorem follows_stops {shape : Shape} {cs : List Char} (h : follows shape cs) :
    Stops isWordChar cs := by
  cases shape with
  | branch =>
    cases cs with
    | nil => exact nofun
    | cons c cs =>
      by_cases hc : isBlank c
      · exact stops_cons (blank_not_word hc)
      · rw [follows, skipBlanks, List.dropWhile_cons_of_neg hc, dropText?] at h
        split_ifs at h with heq
        · exact stops_cons (heq ▸ by decide)
        · contradiction
  | forEach =>
    obtain ⟨x, hx⟩ := Option.isSome_iff_exists.mp h
    obtain ⟨y, hy, -⟩ := Option.bind_eq_some_iff.mp hx
    exact blanks_stops (Option.isSome_of_eq_some hy)
  | loop =>
    obtain ⟨x, hx⟩ := Option.isSome_iff_exists.mp h
    obtain ⟨y, hy, -⟩ := Option.bind_eq_some_iff.mp hx
    exact blanks_stops (Option.isSome_of_eq_some hy)

theorem keyed_seek (rs : Readers) (shape : Shape) :
    Keyed (keyword shape) (fun cs => follows shape cs = true) (seek rs shape) where
  word := keyword_word shape
  letter := by cases shape <;> decide
  stops _ h := follows_stops h
  found h := seek_follows h

section Missing

variable {rs : Readers} {shape : Shape} {tail rest : List Char}

theorem misses_blanks {gap : List Char} (hg : ∀ c ∈ gap, isBlank c) :
    Misses (seek rs shape) gap rest := by
  have hgap : Misses (seek rs shape) (gap ++ []) rest := (keyed_seek rs shape).misses_gap hg trivial
  rwa [List.append_nil] at hgap

/-- A word that does not end with the keyword, or that is followed by something else. -/
theorem misses_word {w : List Char} {c : Char} (hw : IsWord w) (hc : isWordChar c = false)
    (hf : keyword shape <:+ w → follows shape (c :: (tail ++ rest)) = false)
    (h : Misses (seek rs shape) tail rest) : Misses (seek rs shape) (w ++ c :: tail) rest := by
  have hk := keyed_seek rs shape
  refine misses_append.mpr ⟨hk.misses_word hw.chars (stops_cons hc) ?_, hk.misses_sign hc h⟩
  intro hsuffix hfollows
  rw [List.cons_append, hf hsuffix] at hfollows
  cases hfollows

def otherWords : List String :=
  ["tocar", "pausa", "instrumento", "senao", "cada", "em", "vezes"]

theorem misses_other {w : String} (hw : w ∈ otherWords) (h : Misses (seek rs shape) tail rest) :
    Misses (seek rs shape) (w.toList ++ ' ' :: tail) rest := by
  have hwords : ∀ w ∈ otherWords, (w.toList ≠ [] ∧ ∀ c ∈ w.toList, isWordChar c) ∧
      (¬ keyword .branch <:+ w.toList ∧ ¬ keyword .forEach <:+ w.toList) ∧
        ¬ keyword .loop <:+ w.toList := by decide
  obtain ⟨⟨hne, hchars⟩, ⟨hbranch, hforEach⟩, hloop⟩ := hwords w hw
  have hkey : ¬ keyword shape <:+ w.toList := by
    cases shape with
    | branch => exact hbranch
    | forEach => exact hforEach
    | loop => exact hloop
  exact misses_word ⟨hne, hchars⟩ (by decide) (absurd · hkey) h

theorem misses_keyword {other : Shape} (hs : shape ≠ other)
    (h : Misses (seek rs shape) tail rest) :
    Misses (seek rs shape) (keyword other ++ ' ' :: tail) rest := by
  have hkey : ¬ keyword shape <:+ keyword other := by
    revert hs
    cases shape <;> cases other <;> decide
  exact misses_word (keyword_word other) (by decide) (absurd · hkey) h

theorem statement_misses (s : Statement) (h : Misses (seek rs shape) tail rest) :
    Misses (seek rs shape) (s.text tail) rest := by
  have hlength (length : Length) : Misses (seek rs shape) (length.name ++ ';' :: tail) rest :=
    misses_word (length_word length) (by decide) (fun _ => by cases shape <;> rfl) h
  cases s with
  | play note length =>
    have hsplit : (Statement.play note length).text tail =
        "tocar".toList ++ ' ' :: (note.1 ++ ' ' :: (length.name ++ ';' :: tail)) := by
      unfold Statement.text Statement.line playLine
      simp only [List.append_assoc, List.cons_append]
      rfl
    rw [hsplit]
    refine misses_other (by decide) (misses_word note.2 (by decide) (fun _ => ?_) (hlength length))
    cases shape <;> cases length <;> rfl
  | pause length =>
    have hsplit : (Statement.pause length).text tail =
        "pausa".toList ++ ' ' :: (length.name ++ ';' :: tail) := rfl
    rw [hsplit]
    exact misses_other (by decide) (hlength length)
  | instrument name =>
    have hsplit : (Statement.instrument name).text tail =
        "instrumento".toList ++ ' ' :: (name.1 ++ ';' :: tail) := rfl
    rw [hsplit]
    exact misses_other (by decide)
      (misses_word name.2 (by decide) (fun _ => by cases shape <;> rfl) h)

theorem branch_misses (hs : shape ≠ .branch) (left right : Word) {first second : List Char}
    (h₁ : ∀ rest, Misses (seek rs shape) first rest)
    (h₂ : ∀ rest, Misses (seek rs shape) second rest)
    (h : Misses (seek rs shape) tail rest) :
    Misses (seek rs shape) (branchText left right first second tail) rest := by
  have hsplit : branchText left right first second tail = keyword .branch ++ ' ' :: '(' ::
      (left.1 ++ ' ' :: '=' :: '=' :: ' ' :: (right.1 ++ ')' :: ' ' :: '{' :: (first ++
        '}' :: ' ' :: ("senao".toList ++ ' ' :: '{' :: (second ++ '}' :: tail))))) := by
    unfold branchText equality
    simp only [List.append_assoc]
    rfl
  have hk := keyed_seek rs shape
  rw [hsplit]
  refine misses_keyword hs (hk.misses_sign (by decide) ?_)
  refine misses_word left.2 (by decide) (fun _ => by cases shape <;> rfl) ?_
  refine hk.misses_sign (by decide) (hk.misses_sign (by decide) (hk.misses_sign (by decide) ?_))
  refine misses_word right.2 (by decide) (fun _ => by cases shape <;> rfl) ?_
  refine hk.misses_sign (by decide) (hk.misses_sign (by decide) ?_)
  refine misses_append.mpr ⟨h₁ _, hk.misses_sign (by decide) (hk.misses_sign (by decide) ?_)⟩
  refine misses_other (by decide) (hk.misses_sign (by decide) ?_)
  exact misses_append.mpr ⟨h₂ _, hk.misses_sign (by decide) h⟩

theorem for_each_misses (hs : shape ≠ .forEach) (name collection : Word) {body : List Char}
    (hb : ∀ rest, Misses (seek rs shape) body rest) (h : Misses (seek rs shape) tail rest) :
    Misses (seek rs shape) (forEachText name collection body tail) rest := by
  have hsplit : forEachText name collection body tail = keyword .forEach ++ ' ' ::
      ("cada".toList ++ ' ' :: (name.1 ++ ' ' :: ("em".toList ++ ' ' :: (collection.1 ++
        ' ' :: '{' :: (body ++ '}' :: tail))))) := by
    unfold forEachText
    rfl
  have hk := keyed_seek rs shape
  rw [hsplit]
  refine misses_keyword hs (misses_other (by decide) ?_)
  refine misses_word name.2 (by decide) (fun _ => by cases shape <;> rfl) ?_
  refine misses_other (by decide) ?_
  refine misses_word collection.2 (by decide) (fun _ => by cases shape <;> rfl) ?_
  exact hk.misses_sign (by decide) (misses_append.mpr ⟨hb _, hk.misses_sign (by decide) h⟩)

theorem loop_misses (hs : shape ≠ .loop) (times : Nat) {body : List Char}
    (hb : ∀ rest, Misses (seek rs shape) body rest) (h : Misses (seek rs shape) tail rest) :
    Misses (seek rs shape) (loopText times body tail) rest := by
  have hsplit : loopText times body tail = keyword .loop ++ ' ' :: (Nat.toDigits 10 times ++
      ' ' :: ("vezes".toList ++ ' ' :: '{' :: (body ++ '}' :: tail))) := by
    unfold loopText
    rfl
  have hk := keyed_seek rs shape
  rw [hsplit]
  refine misses_keyword hs ?_
  refine misses_word (digits_word times) (by decide) (fun _ => by cases shape <;> rfl) ?_
  refine misses_other (by decide) (hk.misses_sign (by decide) ?_)
  exact misses_append.mpr ⟨hb _, hk.misses_sign (by decide) h⟩

end Missing

/-- A search finds nothing in a passage without blocks of its shape. -/
theorem written_misses {rs : Readers} {shape : Shape} {after : Bool} {p : Passage} {cs : List Char}
    (h : Written after p cs) (hp : p.has shape = false) (rest : List Char) :
    Misses (seek rs shape) cs rest := by
  have hk := keyed_seek rs shape
  induction h generalizing rest with
  | stop hgap => exact misses_blanks hgap.blank
  | @line after gap cs s p hgap _ ih =>
    exact hk.misses_gap hgap.blank (statement_misses s (ih hp rest))
  | @branch after gap first second cs left right a b p hgap _ _ _ ih₁ ih₂ ih₃ =>
    simp only [Passage.has, Bool.or_eq_false_iff, beq_eq_false_iff_ne] at hp
    obtain ⟨⟨⟨hs, ha⟩, hb⟩, hp⟩ := hp
    exact hk.misses_gap hgap.blank (branch_misses hs left right (ih₁ ha) (ih₂ hb) (ih₃ hp rest))
  | @forEach after gap inside cs name collection body p hgap _ _ ih₁ ih₂ =>
    simp only [Passage.has, Bool.or_eq_false_iff, beq_eq_false_iff_ne] at hp
    obtain ⟨⟨hs, hb⟩, hp⟩ := hp
    exact hk.misses_gap hgap.blank (for_each_misses hs name collection (ih₁ hb) (ih₂ hp rest))
  | @loop after gap inside cs times body p hgap _ _ ih₁ ih₂ =>
    simp only [Passage.has, Bool.or_eq_false_iff, beq_eq_false_iff_ne] at hp
    obtain ⟨⟨hs, hb⟩, hp⟩ := hp
    exact hk.misses_gap hgap.blank (loop_misses hs times (ih₁ hb) (ih₂ hp rest))

theorem up_to_append {stop : Char} {w : List Char} (h : stop ∉ w) (rest : List Char) :
    upTo? stop (w ++ stop :: rest) = some (w, rest) := by
  induction w with
  | nil => simp [upTo?]
  | cons c w ih =>
    obtain ⟨hc, hw⟩ := not_or.mp (mt List.mem_cons.mpr h)
    rw [List.cons_append, upTo?, if_neg (Ne.symm hc), ih hw, Option.map_some]

theorem equality_closed (left right : Word) : ')' ∉ equality left right := by
  have hword {w : List Char} (hw : IsWord w) : ')' ∉ w := fun hmem =>
    absurd (hw.chars _ hmem) (by decide)
  intro hmem
  rcases List.mem_append.mp hmem with hmem | hmem
  · exact hword left.2 hmem
  · rcases List.mem_append.mp hmem with hmem | hmem
    · exact absurd hmem (by decide)
    · exact hword right.2 hmem

theorem equality_tight (left right : Word) : Tight (equality left right) := by
  refine ⟨?_, ?_⟩
  · obtain ⟨c, w, hleft⟩ := List.exists_cons_of_ne_nil left.2.nonempty
    unfold equality
    rw [hleft]
    exact stops_cons (word_not_blank (left.2.chars c (by rw [hleft]; simp)))
  · unfold equality
    rw [← List.append_assoc]
    exact stops_word_end right.2 _

theorem seek_branch (rs : Readers) (left right : Word) {a b : Passage} {first second : List Char}
    (ha : Written false a first) (hda : a.depth ≤ 1) (hb : Written false b second)
    (hdb : b.depth ≤ 1) (tail : List Char) :
    seek rs .branch (branchText left right first second tail) =
      some (readConditional rs ⟨equality left right, strip first, strip second⟩, tail) := by
  have hopen : dropText? "se".toList (branchText left right first second tail) =
      some (' ' :: '(' :: (equality left right ++ ')' :: ' ' :: '{' :: (first ++ '}' :: ' ' ::
        ("senao \x7b".toList ++ (second ++ '}' :: tail))))) := rfl
  have hparenthesis (cs : List Char) : dropText? ['('] (skipBlanks (' ' :: '(' :: cs)) = some cs :=
    rfl
  have hcondition := up_to_append (equality_closed left right) (' ' :: '{' :: (first ++ '}' ::
    ' ' :: ("senao \x7b".toList ++ (second ++ '}' :: tail))))
  have hfirst : spacedBlock? (' ' :: '{' :: (first ++ '}' :: ' ' ::
      ("senao \x7b".toList ++ (second ++ '}' :: tail)))) =
      some (first, ' ' :: ("senao \x7b".toList ++ (second ++ '}' :: tail))) :=
    block_written ha hda _
  have hsecond : alternative? (' ' :: ("senao \x7b".toList ++ (second ++ '}' :: tail))) =
      some (second, tail) :=
    block_written hb hdb _
  have hne : ¬ (equality left right).isEmpty := by
    simp [equality, left.2.nonempty]
  simp only [seek, conditional?, hopen, hparenthesis, hcondition, hfirst, hsecond,
    Option.bind_eq_bind, Option.bind_some, if_neg hne, Option.pure_def, Option.map_some,
    strip_tight (equality_tight left right)]

theorem seek_for_each (rs : Readers) (name collection : Word) {p : Passage} {body : List Char}
    (hp : Written false p body) (hd : p.depth ≤ 1) (tail : List Char) :
    seek rs .forEach (forEachText name collection body tail) =
      some (readIteration rs ⟨name.1, collection.1, false, strip body⟩, tail) := by
  have hblanks {w : List Char} (hw : IsWord w) (rest : List Char) :
      blanks? (' ' :: (w ++ rest)) = some (w ++ rest) :=
    congrArg some (skip_word hw rest)
  have hword {w : List Char} (hw : IsWord w) (rest : List Char) :
      word? (w ++ ' ' :: rest) = some (w, ' ' :: rest) :=
    word_append hw (stops_cons (by decide))
  have hpara : dropText? "para".toList (forEachText name collection body tail) =
      some (' ' :: ("cada".toList ++ ' ' :: (name.1 ++ ' ' :: ("em".toList ++ ' ' ::
        (collection.1 ++ ' ' :: '{' :: (body ++ '}' :: tail)))))) := rfl
  have hcada (rest : List Char) : dropText? "cada".toList ("cada".toList ++ rest) = some rest :=
    drop_text_append _ rest
  have hem (rest : List Char) : dropText? "em".toList ("em".toList ++ rest) = some rest :=
    drop_text_append _ rest
  have hbody : spacedBlock? (' ' :: '{' :: (body ++ '}' :: tail)) = some (body, tail) :=
    block_written hp hd _
  have hcollection : collection? (collection.1 ++ ' ' :: '{' :: (body ++ '}' :: tail)) =
      some (collection.1, false, body, tail) := by
    simp only [collection?, hword collection.2, hbody, Option.bind_eq_bind, Option.bind_some,
      Option.pure_def, Option.orElse_eq_orElse, Option.orElse_some]
  have hcadaWord : IsWord "cada".toList := ⟨by decide, by decide⟩
  have hemWord : IsWord "em".toList := ⟨by decide, by decide⟩
  simp only [seek, iteration?, hpara, hcada, hem, hblanks hcadaWord, hblanks hemWord,
    hblanks name.2, hblanks collection.2, hword name.2, hcollection, Option.bind_eq_bind,
    Option.bind_some, Option.pure_def, Option.map_some]

theorem seek_loop (rs : Readers) (times : Nat) {p : Passage} {body : List Char}
    (hp : Written false p body) (hd : p.depth ≤ 1) (tail : List Char) :
    seek rs .loop (loopText times body tail) =
      some (readRepetition rs ⟨Nat.toDigits 10 times, body⟩, tail) := by
  have hrepetir : dropText? "repetir".toList (loopText times body tail) =
      some (' ' :: (Nat.toDigits 10 times ++ ' ' :: ("vezes".toList ++
        ' ' :: '{' :: (body ++ '}' :: tail)))) := rfl
  have hblanks (rest : List Char) : blanks? (' ' :: (Nat.toDigits 10 times ++ rest)) =
      some (Nat.toDigits 10 times ++ rest) :=
    congrArg some (skip_word (digits_word times) rest)
  have hdecimal : ∀ c ∈ Nat.toDigits 10 times, isDecimal c := fun c hc => by
    have hdigit : c.isDigit := Nat.isDigit_of_mem_toDigits (by decide) (by decide) hc
    rw [isDecimal, Number.digit_value hdigit]
    rfl
  have hdigits (rest : List Char) : digits? (Nat.toDigits 10 times ++ ' ' :: rest) =
      some (Nat.toDigits 10 times, ' ' :: rest) :=
    run_append Nat.toDigits_ne_nil hdecimal (stops_cons (by decide))
  have hskip (rest : List Char) : blanks? (' ' :: ("vezes".toList ++ rest)) =
      some ("vezes".toList ++ rest) := rfl
  have hvezes (rest : List Char) : dropText? "vezes".toList ("vezes".toList ++ rest) = some rest :=
    drop_text_append _ rest
  have hbody : spacedBlock? (' ' :: '{' :: (body ++ '}' :: tail)) = some (body, tail) :=
    block_written hp hd _
  simp only [seek, repetition?, hrepetir, hblanks, hdigits, hskip, hvezes, hbody,
    Option.bind_eq_bind, Option.bind_some, Option.pure_def, Option.map_some]

section Giving

variable {rs : Readers}

theorem gives_conditional {condition first second : List Char} {a b : List Command}
    (hne : second ≠ []) :
    (readConditional rs ⟨condition, first, second⟩).Gives
        [.branch (textSlot condition) (.commands a) (.commands b)] ↔
      (rs.body first).Gives a ∧ (rs.body second).Gives b := by
  have hfalse : ¬ second.isEmpty := by simpa using hne
  simp only [readConditional, if_neg hfalse]
  obtain ⟨commands, printed, mistakes, fault⟩ := rs.body first
  obtain ⟨commands', printed', mistakes', fault'⟩ := rs.body second
  cases fault with
  | some f =>
    constructor
    · rintro ⟨hfault, -⟩
      contradiction
    · rintro ⟨⟨hfault, -⟩, -⟩
      contradiction
  | none =>
    constructor
    · rintro ⟨hfault, hcommands⟩
      have hcommand := (List.cons.inj hcommands).1
      simp only [Command.branch.injEq, Block.commands.injEq] at hcommand
      exact ⟨⟨rfl, hcommand.2.1⟩, hfault, hcommand.2.2⟩
    · rintro ⟨⟨-, rfl⟩, hfault, rfl⟩
      exact ⟨hfault, rfl⟩

theorem gives_iteration {name collection body : List Char} {a : List Command} :
    (readIteration rs ⟨name, collection, false, body⟩).Gives
        [.forEach (textSlot name) (textSlot collection) (some (.bool false)) (.commands a)] ↔
      (rs.body body).Gives a := by
  unfold readIteration
  rw [Reading.gives_gather]
  constructor
  · rintro ⟨b, hb, hgives⟩
    have hcommand := (List.cons.inj hb).1
    simp only [Command.forEach.injEq, Block.commands.injEq] at hcommand
    rw [hcommand.2.2.2]
    exact hgives
  · intro h
    exact ⟨a, rfl, h⟩

theorem gives_repetition {times : Nat} {body : List Char} {a : List Command} :
    (readRepetition rs ⟨Nat.toDigits 10 times, body⟩).Gives
        [.loop (some (.int times)) (.commands a)] ↔
      (Nat.toDigits 10 times).length ≤ Number.maxIntegerDigits ∧ (rs.body body).Gives a := by
  simp only [readRepetition, parseInt, Number.read_digits]
  by_cases hlength : Number.maxIntegerDigits < (Nat.toDigits 10 times).length
  · rw [if_pos hlength]
    constructor
    · rintro ⟨hfault, -⟩
      contradiction
    · rintro ⟨hle, -⟩
      omega
  · rw [if_neg hlength]
    simp only [Reading.gives_whole]
    constructor
    · rintro ⟨b, hb, hgives⟩
      have hcommand := (List.cons.inj hb).1
      simp only [Command.loop.injEq, Block.commands.injEq] at hcommand
      rw [hcommand.2]
      exact ⟨by omega, hgives⟩
    · rintro ⟨-, hgives⟩
      exact ⟨a, rfl, hgives⟩

end Giving

theorem misses_start {α : Type} {recognise : List Char → Option (α × List Char)}
    {w rest : List Char} (h : Misses recognise w rest) (hne : w ≠ []) :
    recognise (w ++ rest) = none := by
  cases w with
  | nil => contradiction
  | cons c w => exact h.1

theorem misses_behind {α : Type} {recognise : List Char → Option (α × List Char)}
    {head body tail rest : List Char} {c d : Char}
    (h : Misses recognise (head ++ c :: (body ++ d :: tail)) rest) :
    Misses recognise body (d :: tail ++ rest) ∧ Misses recognise tail rest := by
  obtain ⟨hbody, htail⟩ := misses_append.mp (misses_append.mp h).2.2
  exact ⟨hbody, htail.2⟩

/-- A block of a shape that is shallow enough is found somewhere. -/
theorem written_hits (rs : Readers) {shape : Shape} {after : Bool} {p : Passage} {cs : List Char}
    (h : Written after p cs) (hp : p.has shape) (hd : p.depth ≤ 2) (rest : List Char) :
    ¬ Misses (seek rs shape) cs rest := by
  intro hm
  induction h generalizing rest with
  | stop hgap => contradiction
  | @line after gap cs s p hgap _ ih =>
    obtain ⟨head, -, hsplit⟩ := statement_split hgap.blank cs s
    rw [hsplit] at hm
    exact ih hp hd rest (misses_append.mp hm).2
  | @branch after gap first second cs left right a b p hgap ha hb _ ih₁ ih₂ ih₃ =>
    have hd : max (max a.depth b.depth + 1) p.depth ≤ 2 := hd
    have hm' := (misses_append.mp hm).2
    obtain ⟨head, -, hsplit⟩ := branch_split hgap.blank cs left right first second
    rw [hsplit] at hm
    obtain ⟨hm₁, hm⟩ := misses_behind hm
    obtain ⟨hm₂, hm₃⟩ := misses_behind hm
    simp only [Passage.has, Bool.or_eq_true, beq_iff_eq] at hp
    rcases hp with ((rfl | hp) | hp) | hp
    · have hputs := branch_puts left right first second
      have hnone := misses_start hm' (hputs.ne_nil cs)
      rw [hputs.append, seek_branch rs left right ha (by omega) hb (by omega)] at hnone
      contradiction
    · exact ih₁ hp (by omega) _ hm₁
    · exact ih₂ hp (by omega) _ hm₂
    · exact ih₃ hp (by omega) _ hm₃
  | @forEach after gap inside cs name collection body p hgap hb _ ih₁ ih₂ =>
    have hd : max (body.depth + 1) p.depth ≤ 2 := hd
    have hm' := (misses_append.mp hm).2
    obtain ⟨head, -, hsplit⟩ := for_each_split hgap.blank cs name collection inside
    rw [hsplit] at hm
    obtain ⟨hm₁, hm₂⟩ := misses_behind hm
    simp only [Passage.has, Bool.or_eq_true, beq_iff_eq] at hp
    rcases hp with (rfl | hp) | hp
    · have hputs := for_each_puts name collection inside
      have hnone := misses_start hm' (hputs.ne_nil cs)
      rw [hputs.append, seek_for_each rs name collection hb (by omega)] at hnone
      contradiction
    · exact ih₁ hp (by omega) _ hm₁
    · exact ih₂ hp (by omega) _ hm₂
  | @loop after gap inside cs times body p hgap hb _ ih₁ ih₂ =>
    have hd : max (body.depth + 1) p.depth ≤ 2 := hd
    have hm' := (misses_append.mp hm).2
    obtain ⟨head, -, hsplit⟩ := loop_split hgap.blank cs times inside
    rw [hsplit] at hm
    obtain ⟨hm₁, hm₂⟩ := misses_behind hm
    simp only [Passage.has, Bool.or_eq_true, beq_iff_eq] at hp
    rcases hp with (rfl | hp) | hp
    · have hputs := loop_puts times inside
      have hnone := misses_start hm' (hputs.ne_nil cs)
      rw [hputs.append, seek_loop rs times hb (by omega)] at hnone
      contradiction
    · exact ih₁ hp (by omega) _ hm₁
    · exact ih₂ hp (by omega) _ hm₂

end Melody.Command
