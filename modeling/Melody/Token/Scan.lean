import Melody.Source.Comment
import Melody.Token.Kind

/-!
# Scanning

A line is cut into lexemes: identifiers, numbers, single signs, and runs of anything else up to
the next blank. Columns are those of the line without its indentation.
-/

set_option autoImplicit false

namespace Melody.Token

open Melody.Text

def isSign (c : Char) : Bool :=
  "\x7b\x7d()[]<>;,=+-*/%#".toList.contains c

def isAsciiDigit (c : Char) : Bool :=
  '0' ≤ c && c ≤ '9'

def numeralTail (cs : List Char) : Nat :=
  let whole := (cs.takeWhile isAsciiDigit).length
  match cs.dropWhile isAsciiDigit with
  | '.' :: rest => whole + 1 + (rest.takeWhile isAsciiDigit).length
  | _ => whole

def lexemeTail (c : Char) (cs : List Char) : Nat :=
  if startsIdentifier c then (cs.takeWhile continuesIdentifier).length
  else if isAsciiDigit c then numeralTail cs
  else if isSign c then 0
  else (cs.takeWhile fun d => !isBlank d).length

def lexemes : List Char → Nat → List (Nat × List Char)
  | [], _ => []
  | c :: cs, column =>
    if isBlank c then lexemes cs (column + 1)
    else
      let n := lexemeTail c cs
      (column, c :: cs.take n) :: lexemes (cs.drop n) (column + 1 + n)
termination_by cs => cs.length
decreasing_by
  · simp
  · simp only [List.length_cons, List.length_drop]; omega

def classifyAll (line : Nat) : List (Nat × List Char) → Except Fault (List Token)
  | [] => .ok []
  | (column, text) :: rest => do
    let kind ← classify text
    return ⟨kind, text, line, column⟩ :: (← classifyAll line rest)

def ofLine (line : Nat) (cs : List Char) : Except Fault (List Token) :=
  classifyAll line (lexemes cs 1)

def ofLines : Nat → List (List Char) → Except Fault (List Token)
  | _, [] => .ok []
  | line, cs :: rest => do
    let here ← ofLine line (strip cs)
    return here ++ (← ofLines (line + 1) rest)

def scan (cs : List Char) : Except Fault (List Token) :=
  ofLines 1 (lines (Source.dropBlockComments .file cs))

end Melody.Token
