import Mathlib.Data.List.FinRange
import Mathlib.Logic.Equiv.Basic
import Melody.Proofs.Cleaning

/-!
# Remarks belong to their lines

The full and the brief rules look at one line at a time. What they say about a line depends on its
text alone, except that the full rules say nothing about a call of a function that some line of
the program defines, wherever that line stands. So a program gets the remarks that its lines would
get as programs of their own, less those, and when its lines are put in another order, the remarks
go with them.
-/

set_option autoImplicit false

namespace Melody.Lint

open Melody.Text

def Issue.remains (defined : List String) : Issue → Bool
  | .undefinedFunction name => !defined.contains name
  | _ => true

section Remains

variable (defined : List String) (line : List Char)

/-- Of two alternatives. -/
theorem remains_if {c : Prop} [Decidable c] {a a' b b' : List Issue}
    (ha : a.filter (Issue.remains defined) = a') (hb : b.filter (Issue.remains defined) = b') :
    (if c then a else b).filter (Issue.remains defined) = if c then a' else b' := by
  split
  · exact ha
  · exact hb

theorem semicolon_remains :
    (semicolonIssue line).filter (Issue.remains defined) = semicolonIssue line :=
  remains_if defined rfl rfl

theorem play_remains : (checkPlay line).filter (Issue.remains defined) = checkPlay line := by
  unfold checkPlay
  split
  · rw [List.filter_append]
    exact congrArg₂ _ (remains_if defined rfl rfl) (remains_if defined rfl rfl)
  · rfl

theorem waveform_remains :
    (checkWaveform line).filter (Issue.remains defined) = checkWaveform line := by
  unfold checkWaveform
  split
  · rfl
  · exact remains_if defined (semicolon_remains defined line) rfl

theorem pause_remains : (checkPause line).filter (Issue.remains defined) = checkPause line := by
  unfold checkPause
  rw [List.filter_append, semicolon_remains]
  congr 1
  split
  · rfl
  · exact remains_if defined rfl rfl

theorem for_each_remains :
    (checkForEach line).filter (Issue.remains defined) = checkForEach line :=
  remains_if defined rfl (remains_if defined rfl (remains_if defined rfl rfl))

/-- The only rule that asks which functions there are. -/
theorem call_remains :
    (checkCall [] line).filter (Issue.remains defined) = checkCall defined line := by
  unfold checkCall
  split
  · rfl
  · rename_i name _
    simp only [List.contains_nil, Bool.or_false]
    cases systemFunctions.contains (String.ofList name) with
    | true => rfl
    | false =>
      cases isParameter name with
      | true => simp
      | false =>
        by_cases h : String.ofList name ∈ defined
        · simp [Issue.remains, h]
        · simp [Issue.remains, h]

/-- The functions that a program defines only take remarks away. The cases are the forms of a
line, in the order in which they are tried. -/
theorem check_remains :
    (checkFully [] line).filter (Issue.remains defined) = checkFully defined line := by
  have hsemicolon := semicolon_remains defined line
  refine remains_if defined (remains_if defined rfl rfl) ?_
  refine remains_if defined (remains_if defined hsemicolon rfl) ?_
  refine remains_if defined (waveform_remains defined line) ?_
  refine remains_if defined (remains_if defined hsemicolon rfl) ?_
  refine remains_if defined (remains_if defined rfl rfl) ?_
  refine remains_if defined (play_remains defined line) ?_
  refine remains_if defined (call_remains defined line) ?_
  refine remains_if defined (pause_remains defined line) ?_
  refine remains_if defined (remains_if defined rfl rfl) ?_
  refine remains_if defined (remains_if defined rfl rfl) ?_
  exact remains_if defined (for_each_remains defined line) rfl

theorem brief_remains :
    (checkBriefly line).filter (Issue.remains defined) = checkBriefly line := by
  apply remains_if
  · split
    · exact remains_if defined rfl rfl
    · rfl
  · exact remains_if defined
      (remains_if defined rfl (remains_if defined rfl rfl)) rfl

end Remains

def Remark.atLine (number : Nat) (r : Remark) : Remark :=
  { r with line := number }

def Remark.isAt (number : Nat) (r : Remark) : Bool :=
  r.line = number

def Remark.remains (defined : List String) (r : Remark) : Bool :=
  r.issue.remains defined

inductive Rules where
  | full
  | brief
deriving DecidableEq, Repr

namespace Rules

def check : Rules → List String → List Char → List Issue
  | .full => checkFully
  | .brief => fun _ => checkBriefly

def remarks : Rules → List Char → List Remark
  | .full => fullRemarks
  | .brief => briefRemarks

variable (rules : Rules)

theorem remarks_eq (cs : List Char) :
    rules.remarks cs = remarksFrom (rules.check (definedFunctions cs)) 1 (lines cs) := by
  cases rules with
  | full => rfl
  | brief => rfl

/-- What is known of the definitions may grow. -/
theorem check_grows {known defined : List String} (h : known ⊆ defined) (line : List Char) :
    (rules.check known line).filter (Issue.remains defined) = rules.check defined line := by
  have hfewer (issue : Issue) :
      (issue.remains defined && issue.remains known) = issue.remains defined := by
    cases issue with
    | undefinedFunction name =>
      by_cases hname : name ∈ known
      · simp [Issue.remains, hname, h hname]
      · simp [Issue.remains, hname]
    | _ => rfl
  cases rules with
  | full =>
    rw [check, ← check_remains known, List.filter_filter, funext hfewer]
    exact check_remains defined line
  | brief => exact brief_remains defined line

/-- Only the names count, not their order. -/
theorem check_congr {known defined : List String} (h : ∀ name, name ∈ known ↔ name ∈ defined) :
    rules.check known = rules.check defined := by
  have hremains : Issue.remains known = Issue.remains defined := by
    funext issue
    cases issue with
    | undefinedFunction name => simp [Issue.remains, h name]
    | _ => rfl
  funext line
  rw [← rules.check_grows (List.nil_subset known), hremains, rules.check_grows (List.nil_subset _)]

/-- The remarks on a line are those it gets with less known, less those that what is known besides
takes away, under whatever number. -/
theorem remarks_grow {known defined : List String} (h : known ⊆ defined) (number k : Nat)
    (line : List Char) :
    ((remarksOnLine (rules.check known) number line).filter (Remark.remains defined)).map
        (Remark.atLine k) =
      remarksOnLine (rules.check defined) k line := by
  unfold remarksOnLine
  dsimp only
  split
  · rfl
  · rw [List.filter_map, List.map_map, ← rules.check_grows h]
    rfl

end Rules

theorem mem_defined {cs : List Char} {name : String} :
    name ∈ definedFunctions cs ↔ ∃ line ∈ lines cs, definedFunction? line = some name := by
  rw [definedFunctions, List.mem_eraseDups, List.mem_filterMap]

theorem remarks_each (rule : List Char → List Issue) {n : Nat} (line : Fin n → List Char)
    (start : Nat) :
    remarksFrom rule start ((List.finRange n).map line) =
      (List.finRange n).flatMap fun k : Fin n => remarksOnLine rule (k + start) (line k) := by
  induction n generalizing start with
  | zero => rfl
  | succ n ih =>
    rw [List.finRange_succ, List.map_cons, List.map_map, remarksFrom, ih, List.flatMap_cons,
      List.flatMap_map]
    congr 1
    · rw [Fin.val_zero, Nat.zero_add]
    · apply List.flatMap_congr
      intro k _
      rw [Fin.val_succ, Nat.add_right_comm]
      rfl

/-- The items that belong to one of several places. -/
theorem flat_map_at {α : Type} {n : Nat} (items : Fin n → List α) (j : Fin n) :
    ((List.finRange n).flatMap fun k => if k = j then items k else []) = items j := by
  induction n with
  | zero => exact j.elim0
  | succ n ih =>
    rw [List.finRange_succ, List.flatMap_cons, List.flatMap_map]
    cases j using Fin.cases with
    | zero => simp
    | succ j =>
      rw [if_neg (Fin.succ_ne_zero j).symm, List.nil_append, ← ih fun k => items k.succ]
      simp only [Fin.succ_inj]

/-- The remarks with the number of a line are the remarks on this line. -/
theorem remarks_at (rule : List Char → List Issue) {n : Nat} (line : Fin n → List Char)
    (start : Nat) (j : Fin n) :
    ((List.finRange n).flatMap fun k : Fin n => remarksOnLine rule (k + start) (line k)).filter
        (Remark.isAt (j + start)) =
      remarksOnLine rule (j + start) (line j) := by
  rw [List.filter_flatMap, ← flat_map_at (fun k => remarksOnLine rule (k + start) (line k)) j]
  apply List.flatMap_congr
  intro k _
  have hnumber : ∀ r ∈ remarksOnLine rule (k + start) (line k), r.line = k + start := by
    intro r hr
    unfold remarksOnLine at hr
    dsimp only at hr
    split at hr
    · cases hr
    · obtain ⟨issue, -, rfl⟩ := List.mem_map.mp hr
      rfl
  by_cases hk : k = j
  · rw [if_pos hk, List.filter_eq_self]
    intro r hr
    simp [Remark.isAt, hnumber r hr, hk]
  · rw [if_neg hk, List.filter_eq_nil_iff]
    intro r hr
    simpa [Remark.isAt, hnumber r hr, Fin.ext_iff] using hk

def rearranged (cs : List Char) (order : Equiv.Perm (Fin (lines cs).length)) : List Char :=
  join ['\n'] ((List.finRange (lines cs).length).map fun k => (lines cs).get (order k))

theorem lines_rearranged (cs : List Char) (order : Equiv.Perm (Fin (lines cs).length)) :
    lines (rearranged cs order) =
      (List.finRange (lines cs).length).map fun k => (lines cs).get (order k) := by
  apply split_on_join
  · have hlines : (lines cs).length ≠ 0 :=
      fun hnone => split_on_ne_nil '\n' cs (List.length_eq_zero_iff.mp hnone)
    simpa [List.finRange_eq_nil_iff] using hlines
  · intro line hline
    obtain ⟨k, -, rfl⟩ := List.mem_map.mp hline
    exact split_on_lacks (List.get_mem ..)

theorem defined_rearranged (cs : List Char) (order : Equiv.Perm (Fin (lines cs).length))
    (name : String) :
    name ∈ definedFunctions (rearranged cs order) ↔ name ∈ definedFunctions cs := by
  rw [mem_defined, mem_defined, lines_rearranged]
  constructor
  · rintro ⟨line, hline, hname⟩
    obtain ⟨k, -, rfl⟩ := List.mem_map.mp hline
    exact ⟨_, List.get_mem .., hname⟩
  · rintro ⟨line, hline, hname⟩
    obtain ⟨j, rfl⟩ := List.get_of_mem hline
    refine ⟨_, List.mem_map.mpr ⟨order.symm j, List.mem_finRange _, rfl⟩, ?_⟩
    rwa [order.apply_symm_apply]

section Program

variable (rules : Rules) (cs : List Char)

theorem remarks_by_line :
    rules.remarks cs = (List.finRange (lines cs).length).flatMap fun k : Fin (lines cs).length =>
      remarksOnLine (rules.check (definedFunctions cs)) (k + 1) ((lines cs).get k) := by
  rw [← remarks_each, List.map_get_finRange]
  exact rules.remarks_eq cs

/-- A line gets the remarks that it gets as a program of its own, less those about functions that
the program defines. -/
theorem line_alone (k : Fin (lines cs).length) (number : Nat) :
    remarksOnLine (rules.check (definedFunctions cs)) number ((lines cs).get k) =
      ((rules.remarks ((lines cs).get k)).filter (Remark.remains (definedFunctions cs))).map
        (Remark.atLine number) := by
  have hline : lines ((lines cs).get k) = [(lines cs).get k] :=
    split_on_none (split_on_lacks (List.get_mem ..))
  have hknown : definedFunctions ((lines cs).get k) ⊆ definedFunctions cs := by
    intro name hname
    obtain ⟨line, hmem, hname⟩ := mem_defined.mp hname
    rw [hline] at hmem
    obtain rfl := List.mem_singleton.mp hmem
    exact mem_defined.mpr ⟨_, List.get_mem .., hname⟩
  rw [rules.remarks_eq, hline, remarksFrom, remarksFrom, List.append_nil, rules.remarks_grow hknown]

theorem remarks_at_line (k : Fin (lines cs).length) :
    (rules.remarks cs).filter (Remark.isAt (k + 1)) =
      remarksOnLine (rules.check (definedFunctions cs)) (k + 1) ((lines cs).get k) := by
  rw [remarks_by_line]
  exact remarks_at _ (lines cs).get 1 k

/-- The remarks go with their lines. -/
theorem remarks_rearranged (order : Equiv.Perm (Fin (lines cs).length)) :
    rules.remarks (rearranged cs order) =
      (List.finRange (lines cs).length).flatMap fun k : Fin (lines cs).length =>
        ((rules.remarks cs).filter (Remark.isAt (order k + 1))).map (Remark.atLine (k + 1)) := by
  rw [rules.remarks_eq, lines_rearranged, remarks_each,
    rules.check_congr (defined_rearranged cs order)]
  apply List.flatMap_congr
  intro k _
  rw [remarks_at_line, line_alone, line_alone, List.map_map]
  rfl

theorem messages_each (severity : Severity) {n : Nat} (remarks : Fin n → List Remark) :
    messages severity ((List.finRange n).flatMap remarks) =
      (List.finRange n).flatMap fun k => messages severity (remarks k) := by
  rw [messages, List.filter_flatMap, List.map_flatMap]
  rfl

/-- An unknown function is remarked on at a line exactly if the line alone gives reason to and no
line of the program defines the function. -/
theorem undefined_iff (k : Fin (lines cs).length) (name : String) :
    ⟨k + 1, .undefinedFunction name⟩ ∈ rules.remarks cs ↔
      .undefinedFunction name ∈ (rules.remarks ((lines cs).get k)).map Remark.issue ∧
        ∀ line ∈ lines cs, definedFunction? line ≠ some name := by
  have hat : ⟨k + 1, .undefinedFunction name⟩ ∈ rules.remarks cs ↔
      ⟨k + 1, .undefinedFunction name⟩ ∈ (rules.remarks cs).filter (Remark.isAt (k + 1)) := by
    simp [List.mem_filter, Remark.isAt]
  have hdefined : Issue.remains (definedFunctions cs) (.undefinedFunction name) = true ↔
      ∀ line ∈ lines cs, definedFunction? line ≠ some name := by
    simp [Issue.remains, mem_defined]
  rw [hat, remarks_at_line, line_alone, ← hdefined]
  constructor
  · intro h
    obtain ⟨r, hr, heq⟩ := List.mem_map.mp h
    obtain ⟨hr, hremains⟩ := List.mem_filter.mp hr
    have hissue : r.issue = .undefinedFunction name := congrArg Remark.issue heq
    exact ⟨List.mem_map.mpr ⟨r, hr, hissue⟩, hissue ▸ hremains⟩
  · rintro ⟨halone, hremains⟩
    obtain ⟨r, hr, hissue⟩ := List.mem_map.mp halone
    refine List.mem_map.mpr ⟨r, List.mem_filter.mpr ⟨hr, ?_⟩, ?_⟩
    · rw [Remark.remains, hissue]
      exact hremains
    · rw [Remark.atLine, hissue]

end Program

/-- The errors and warnings of either set of rules on a program are those on its lines, one line
after the other and each with its number, given the names of all functions that the program
defines. What a line gets under a number is what it gets as a program of its own, less the remarks
on calls of these functions. If the lines are put in another order, every line takes its remarks
along and they get its new number. Where a function is defined makes no difference to the calls of
it. -/
theorem remarks_line_local (rules : Rules) (cs : List Char) :
    (∀ severity, messages severity (rules.remarks cs) =
      (List.finRange (lines cs).length).flatMap fun k : Fin (lines cs).length =>
        messages severity
          (remarksOnLine (rules.check (definedFunctions cs)) (k + 1) ((lines cs).get k))) ∧
    (∀ (k : Fin (lines cs).length) (number : Nat),
      remarksOnLine (rules.check (definedFunctions cs)) number ((lines cs).get k) =
        ((rules.remarks ((lines cs).get k)).filter (Remark.remains (definedFunctions cs))).map
          (Remark.atLine number)) ∧
    (∀ severity (order : Equiv.Perm (Fin (lines cs).length)),
      messages severity (rules.remarks (rearranged cs order)) =
        (List.finRange (lines cs).length).flatMap fun k : Fin (lines cs).length =>
          messages severity (((rules.remarks cs).filter (Remark.isAt (order k + 1))).map
            (Remark.atLine (k + 1)))) ∧
    ∀ (k : Fin (lines cs).length) (name : String),
      ⟨k + 1, .undefinedFunction name⟩ ∈ rules.remarks cs ↔
        .undefinedFunction name ∈ (rules.remarks ((lines cs).get k)).map Remark.issue ∧
          ∀ line ∈ lines cs, definedFunction? line ≠ some name := by
  refine ⟨?_, line_alone rules cs, ?_, undefined_iff rules cs⟩
  · intro severity
    rw [← messages_each, ← remarks_by_line]
  · intro severity order
    rw [← messages_each, ← remarks_rearranged]

/-- A function that is defined behind its call, and without its definition. -/
example : fullRemarks "f(1);\nfuncao f(n) \x7b".toList = [] ∧
    fullRemarks "f(1);\ng(1)".toList =
      [⟨1, .undefinedFunction "f"⟩, ⟨2, .undefinedFunction "g"⟩] := by
  decide +kernel

end Melody.Lint
