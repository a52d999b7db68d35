import Melody.Settings.Sections

/-!
# Expansion of values

In a value `%(name)s` stands for the value of another option and `%%` for a percent sign. Values
that are put in are expanded as well, to a limited depth.
-/

set_option autoImplicit false

namespace Melody.Settings

open Melody.Text

inductive Unexpandable where
  | badReference
  | unknownOption
  | tooDeep
deriving DecidableEq, Repr

def reference? (cs : List Char) : Option (List Char × List Char) :=
  let name := cs.takeWhile (· != ')')
  match cs.drop name.length with
  | ')' :: 's' :: rest => if name.isEmpty then none else some (name, rest)
  | _ => none

theorem length_of_reference? {cs name rest : List Char} (h : reference? cs = some (name, rest)) :
    rest.length < cs.length := by
  unfold reference? at h
  simp only at h
  split at h
  · rename_i after hdrop
    split at h
    · simp at h
    · simp only [Option.some.injEq, Prod.mk.injEq] at h
      have hlen := congrArg List.length hdrop
      simp only [List.length_drop, List.length_cons] at hlen
      rw [← h.2]
      omega
  · simp at h

inductive Piece where
  | plain (c : Char)
  | reference (name : List Char)
  | bad

def pieces (cs : List Char) : List Piece :=
  match cs with
  | [] => []
  | '%' :: '%' :: rest => .plain '%' :: pieces rest
  | '%' :: '(' :: rest =>
    match h : reference? rest with
    | some (name, after) =>
      have := length_of_reference? h
      .reference name :: pieces after
    | none => [.bad]
  | '%' :: _ => [.bad]
  | c :: rest => .plain c :: pieces rest
termination_by cs.length
decreasing_by all_goals simp only [List.length_cons]; omega

def expand (value? : String → Option String) : Nat → List Char → Except Unexpandable (List Char)
  | 0, _ => .error .tooDeep
  | depth + 1, cs => do
    let parts ← (pieces cs).mapM fun piece =>
      match piece with
      | .plain c => .ok [c]
      | .bad => .error .badReference
      | .reference name =>
        match value? (lower (String.ofList name)) with
        | none => .error .unknownOption
        | some v => if v.toList.contains '%' then expand value? depth v.toList else .ok v.toList
    return parts.flatten

def depthLimit : Nat := 10

end Melody.Settings
