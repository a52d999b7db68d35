import Melody.Performance
import Melody.Value.Access
import Melody.Text.Words

/-!
# Conditions

A condition compares two operands for equality or inequality. An operand is a variable, a number,
a quoted text or the text itself.
-/

set_option autoImplicit false

namespace Melody.Performance

open Melody.Text
open Act

def operand (cs : List Char) : Performance Value := do
  let text := strip cs
  match ← lookup (.text (String.ofList text)) with
  | some v => return v
  | none =>
    match Number.readFloat? text with
    | some x => return .float x
    | none =>
      if Function.isQuoted text then return .text (String.ofList (Function.unquote text))
      else return .text (String.ofList text)

def compare (sign cs : List Char) : Performance Bool :=
  match splitText sign cs with
  | [left, right] => do
    let a ← operand left
    let b ← operand right
    return a.same b
  | _ => fail .tooManyParts

def warnCondition (condition : Value) : Performance Bool := do
  let shown := condition.written
  say s!"Aviso: Condição complexa '{shown}' não suportada. Tratando como falso."
  return false

/-- Whether a condition holds. One without a sign of comparison does not, and a list or a record
that contains the sign has no sides to compare. -/
def holds (condition : Value) : Performance Bool :=
  match condition with
  | .text s =>
    if occurs ['=', '='] s.toList then compare ['=', '='] s.toList
    else if occurs ['!', '='] s.toList then do
      return !(← compare ['!', '='] s.toList)
    else warnCondition condition
  | .list _ | .record _ => do
    let parts ← ofExcept condition.elements
    if parts.any fun v => v.same (.text "==") || v.same (.text "!=") then
      fail (.notText condition.kind "split")
    else warnCondition condition
  | v => fail (.notSearchable v.kind)

end Melody.Performance
