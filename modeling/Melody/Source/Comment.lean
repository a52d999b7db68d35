import Melody.Text.Words

/-!
# Comments

A block comment opens with a backslash and an underscore and ends at the next underscore
followed by a slash. Whether it may run over the end of a line depends on who reads it, so the
reach is a parameter. A line comment starts at a number sign that begins a word, which keeps
the sign of a sharp inside a note.
-/

set_option autoImplicit false

namespace Melody.Source

inductive Reach where
  | line
  | file
deriving DecidableEq, Repr

def afterClose? (reach : Reach) : List Char → Option (List Char)
  | [] => none
  | '_' :: '/' :: rest => some rest
  | c :: cs => if reach = .line && c = '\n' then none else afterClose? reach cs

theorem length_of_afterClose? (reach : Reach) :
    ∀ (cs : List Char) {rest : List Char}, afterClose? reach cs = some rest →
      rest.length < cs.length := by
  intro cs
  fun_induction afterClose? reach cs with
  | case1 => intro rest h; simp at h
  | case2 tail => intro rest h; simp at h; subst h; simp only [List.length_cons]; omega
  | case3 => intro rest h; simp at h
  | case4 c cs _ _ ih =>
    intro rest h
    have := ih h
    simp only [List.length_cons]
    omega

/-- The text without its block comments. A comment that does not end within reach is text. -/
def dropBlockComments (reach : Reach) : List Char → List Char
  | [] => []
  | '\\' :: '_' :: body =>
    match _h : afterClose? reach body with
    | some rest => dropBlockComments reach rest
    | none => '\\' :: dropBlockComments reach ('_' :: body)
  | c :: cs => c :: dropBlockComments reach cs
termination_by cs => cs.length
decreasing_by
  · have := length_of_afterClose? reach body _h
    simp only [List.length_cons] at *
    omega
  · simp
  · simp

def beforeLineComment : Bool → List Char → List Char
  | _, [] => []
  | fresh, c :: cs =>
    if fresh && c = '#' then [] else c :: beforeLineComment (Text.isBlank c) cs

def dropLineComment (line : List Char) : List Char :=
  beforeLineComment true line

def withoutComments (cs : List Char) : List Char :=
  Text.join ['\n'] ((Text.lines (dropBlockComments .line cs)).map dropLineComment)

end Melody.Source
