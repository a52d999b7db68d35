import Melody.Proofs.Arguments

/-!
# The two comparisons

A condition is a text in which one of two signs is looked for, and everything around the sign is an
operand. A text with both signs is cut at the sign of equality, and a sign that stands there twice
leaves no two sides. Operands without an equals sign rule this out: whichever of the signs stands
between them, it is the only one, and both conditions compare the same two values. So the one holds
exactly if the other does not, whatever the operands name or are read as.
-/

set_option autoImplicit false

namespace Melody.Text

/-- A character that a text lacks parts its occurrences: none reaches over it. -/
theorem occurs_around {sep : List Char} {c : Char} (hsep : sep ≠ []) (h : c ∉ sep)
    (before rest : List Char) :
    occurs sep (before ++ c :: rest) = (occurs sep before || occurs sep rest) := by
  induction before with
  | nil => simp [occurs, drop_text_foreign hsep h, hsep]
  | cons d before ih =>
    have hdrop := drop_text_before h (d :: before) rest
    rw [List.cons_append] at hdrop ⊢
    rw [occurs, occurs, hdrop, ih, Option.isSome_map, Bool.or_assoc]

end Melody.Text

namespace Melody

open Melody.Text

def Performer.meaning (p : Performer) (operand : String) : Value :=
  let name := String.ofList (strip operand.toList)
  ((p.scope.find? (.text name)).or (p.globals.find? name)).getD
    (Performance.literal (strip operand.toList))

namespace Performance

open Act

/-- Every operand has a value, and finding it changes nothing. -/
theorem operand_meaning (p : Performer) (text : String) :
    operand text.toList p = ⟨p, [], .ok (p.meaning text)⟩ := by
  have hname : (String.ofList (strip text.toList)).toList = strip text.toList :=
    String.toList_ofList
  have htight := strip_leaves_tight text.toList
  have hvalue := operand_value p (hname.symm ▸ htight)
  rw [hname, operand_congr (strip_tight htight)] at hvalue
  exact hvalue

/-- The two sides are looked up one after the other. -/
theorem sides_compared (p : Performer) (left right : String) :
    (do
      let a ← operand left.toList
      let b ← operand right.toList
      return a.same b : Performance Bool) p =
      ⟨p, [], .ok ((p.meaning left).same (p.meaning right))⟩ := by
  rw [bind_of_ok (by rw [operand_meaning]), operand_meaning,
    bind_of_ok (by rw [operand_meaning]), operand_meaning]
  rfl

section Signs

variable (p : Performer) {left right : String} (hleft : '=' ∉ left.toList)
  (hright : '=' ∉ right.toList)
include hleft hright

theorem equation_compares :
    holds (.text (left ++ " == " ++ right)) p =
      ⟨p, [], .ok ((p.meaning left).same (p.meaning right))⟩ := by
  rw [holds_equation, compare_sides (occurs_lacking (by decide) hleft) hright, sides_compared]

/-- The condition has one equals sign, and the sign of equality has two. -/
theorem inequation_sign :
    holds (.text (left ++ " != " ++ right)) = (do
      return !(← compare ['!', '=']
        (left.toList ++ ' ' :: (['!', '='] ++ ' ' :: right.toList)))) := by
  have htext : (left ++ " != " ++ right).toList =
      left.toList ++ ' ' :: (['!', '='] ++ ' ' :: right.toList) := by
    simp
  have hnone : occurs ['=', '='] (left.toList ++ ' ' :: (['!', '='] ++ ' ' :: right.toList)) =
      false := by
    rw [occurs_around (by decide) (by decide), occurs_around (by decide) (by decide),
      occurs_lacking (by decide) hleft, occurs_lacking (by decide) hright]
    rfl
  have hfound : occurs ['!', '='] (left.toList ++ ' ' :: (['!', '='] ++ ' ' :: right.toList)) =
      true :=
    occurs_append _ rfl
  simp only [holds, htext, hnone, hfound, Bool.false_eq_true, if_false, if_true]

theorem inequation_compares :
    holds (.text (left ++ " != " ++ right)) p =
      ⟨p, [], .ok (!(p.meaning left).same (p.meaning right))⟩ := by
  have hcompare : compare ['!', '='] (left.toList ++ ' ' :: (['!', '='] ++ ' ' :: right.toList)) p =
      ⟨p, [], .ok ((p.meaning left).same (p.meaning right))⟩ := by
    rw [compare_between (by decide) (by decide) (occurs_lacking (by decide) hleft)
      (occurs_lacking (by decide) hright), sides_compared]
  rw [inequation_sign hleft hright, bind_of_ok (by rw [hcompare]), hcompare]
  rfl

end Signs

/-- Whatever variables there are, and for all operands without an equals sign, both conditions have
a truth value, and the one is the negation of the other: the first says whether the operands stand
for the same value. Neither changes anything or says anything. -/
theorem inequality_negates (p : Performer) {left right : String} (hleft : '=' ∉ left.toList)
    (hright : '=' ∉ right.toList) :
    ∃ b, holds (.text (left ++ " == " ++ right)) p = ⟨p, [], .ok b⟩ ∧
      holds (.text (left ++ " != " ++ right)) p = ⟨p, [], .ok !b⟩ ∧
      b = (p.meaning left).same (p.meaning right) :=
  ⟨_, equation_compares p hleft hright, inequation_compares p hleft hright, rfl⟩

def examiner : Performer :=
  { scope := [(.text "tom!", .list [Command.noteValue "do".toList none])]
    globals := [("tom", .text "do")] }

/-- What is no number differs from itself, a text does not differ from its quotation, and a chord
differs from the empty text. -/
theorem inequality_negates_at_nan :
    ((holds (.text ("nan" ++ " == " ++ "nan")) examiner).outcome = .ok false ∧
      (holds (.text ("nan" ++ " != " ++ "nan")) examiner).outcome = .ok true) ∧
    ((holds (.text ("tom" ++ " == " ++ "\"do\"")) examiner).outcome = .ok true ∧
      (holds (.text ("tom" ++ " != " ++ "\"do\"")) examiner).outcome = .ok false) ∧
    (holds (.text ("tom!" ++ " == " ++ "")) examiner).outcome = .ok false ∧
      (holds (.text ("tom!" ++ " != " ++ "")) examiner).outcome = .ok true := by
  have hnumber : '=' ∉ "nan".toList := by decide
  have hkey : '=' ∉ "tom".toList := by decide
  have hquoted : '=' ∉ "\"do\"".toList := by decide
  have hsign : '=' ∉ "tom!".toList := by decide
  have hempty : '=' ∉ "".toList := by decide
  obtain ⟨_, hnan, hnan', rfl⟩ := inequality_negates examiner hnumber hnumber
  obtain ⟨_, htext, htext', rfl⟩ := inequality_negates examiner hkey hquoted
  obtain ⟨_, hchord, hchord', rfl⟩ := inequality_negates examiner hsign hempty
  have hnone : (examiner.meaning "nan").same (examiner.meaning "nan") = false := by
    decide +kernel
  have hsame : (examiner.meaning "tom").same (examiner.meaning "\"do\"") = true := by
    decide +kernel
  have hother : (examiner.meaning "tom!").same (examiner.meaning "") = false := by
    decide +kernel
  rw [hnan, hnan', htext, htext', hchord, hchord', hnone, hsame, hother]
  exact ⟨⟨rfl, rfl⟩, ⟨rfl, rfl⟩, rfl, rfl⟩

end Performance

end Melody
