import Melody.Text.Table.Word
import Melody.Text.Table.Printable
import Melody.Text.Table.Digit
import Melody.Text.Table.Case
import Melody.Text.Table.Cased

/-!
# Character classes

Programs are written in any script, so blanks, words and digits are classes of the whole
character set. The ASCII part of each class is decided first and the tables of
`Melody.Text.Table` are consulted for the rest.
-/

set_option autoImplicit false

namespace Melody.Text

def inRanges (ranges : List (Nat × Nat)) (n : Nat) : Bool :=
  ranges.any fun r => r.1 ≤ n && n ≤ r.2

def isBlank (c : Char) : Bool :=
  let n := c.toNat
  (9 ≤ n && n ≤ 13) || (28 ≤ n && n ≤ 32) ||
    (128 ≤ n &&
      (n == 133 || n == 160 || n == 5760 || (8192 ≤ n && n ≤ 8202) || n == 8232 || n == 8233 ||
        n == 8239 || n == 8287 || n == 12288))

def isWordChar (c : Char) : Bool :=
  c.isAlphanum || c == '_' || (128 ≤ c.toNat && inRanges Table.wordRanges c.toNat)

def digitValue? (c : Char) : Option Nat :=
  if c.isDigit then some (c.toNat - 48)
  else if c.toNat < 128 then none
  else (Table.decimalZeros.find? fun z => z ≤ c.toNat && c.toNat ≤ z + 9).map (c.toNat - ·)

def isDecimal (c : Char) : Bool :=
  (digitValue? c).isSome

def isDigit (c : Char) : Bool :=
  isDecimal c || (128 ≤ c.toNat && inRanges Table.otherDigitRanges c.toNat)

def isPrintable (c : Char) : Bool :=
  let n := c.toNat
  if n < 128 then 32 ≤ n && n < 127 else inRanges Table.printableRanges n

def Table.CaseRun.image? (r : Table.CaseRun) (n : Nat) : Option Nat :=
  if r.first ≤ n && n ≤ r.last && (n - r.first) % r.step == 0 then some (n + r.shift).toNat
  else none

def changeCase (growing : List (Nat × List Nat)) (runs : List Table.CaseRun) (c : Char) :
    List Char :=
  match growing.lookup c.toNat with
  | some image => image.map Char.ofNat
  | none =>
    match runs.findSome? (·.image? c.toNat) with
    | some n => [Char.ofNat n]
    | none => [c]

def lowerChar (c : Char) : List Char :=
  if c.toNat < 128 then [c.toLower] else changeCase Table.lowerGrowing Table.lowerRuns c

def upperChar (c : Char) : List Char :=
  if c.toNat < 128 then [c.toUpper] else changeCase Table.upperGrowing Table.upperRuns c

def startsCased (cs : List Char) : Bool :=
  match cs.dropWhile fun c => inRanges Table.passedOverRanges c.toNat with
  | c :: _ => inRanges Table.casedRanges c.toNat
  | [] => false

/-- The small form of a capital sigma between two texts, the first one from its end: the final form
if a letter stands before it and none follows. -/
def lowerSigma (before after : List Char) : Char :=
  if startsCased before && !startsCased after then 'ς' else 'σ'

def lowerAfter : List Char → List Char → List Char
  | _, [] => []
  | before, c :: cs =>
    (if c = 'Σ' then [lowerSigma before cs] else lowerChar c) ++ lowerAfter (c :: before) cs

def lowerText (cs : List Char) : List Char :=
  lowerAfter [] cs

def lower (s : String) : String :=
  String.ofList (lowerText s.toList)

def upper (s : String) : String :=
  String.ofList (s.toList.flatMap upperChar)

/-- Whether `c` is a form of the small letter `letter`, disregarding case. Besides the capital
and the letters that lower to it, the long s and the dotted and dotless forms of i count. -/
def isFormOf (letter c : Char) : Bool :=
  c == letter || lowerChar c == [letter] || (letter == 's' && c.toNat == 0x17F) ||
    (letter == 'i' && (c.toNat == 0x130 || c.toNat == 0x131))

end Melody.Text
