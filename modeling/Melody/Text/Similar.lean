/-!
# Similar words

The likeness of two words is twice the number of matched characters over their joint length.
Characters are matched by the longest common block, the first one where there are several, and
then again on both sides of it. In a long word a character that fills more than a hundredth of
it does not start a block, though it can extend one.
-/

set_option autoImplicit false

namespace Melody.Text

def longWord : Nat := 200

def startsBlock (word : List Char) (c : Char) : Bool :=
  word.length < longWord || word.count c ≤ word.length / 100 + 1

structure Block where
  left : Nat
  right : Nat
  size : Nat
deriving DecidableEq, Repr

/-- The lengths of the common blocks that end at character `c` of the left word and at each
character of the right one; `before` holds those of the previous row, shifted by one. -/
def blockRow (usable : Char → Bool) (c : Char) : List Char → List Nat → List Nat
  | [], _ => []
  | d :: ds, before =>
    let k := if d = c && usable d then before.headD 0 + 1 else 0
    k :: blockRow usable c ds (before.drop 1)

def bestInRow (i : Nat) : Nat → List Nat → Block → Block
  | _, [], best => best
  | j, k :: ks, best =>
    bestInRow i (j + 1) ks (if best.size < k then ⟨i + 1 - k, j + 1 - k, k⟩ else best)

def bestBlock (usable : Char → Bool) (right : List Char) :
    Nat → List Char → List Nat → Block → Block
  | _, [], _, best => best
  | i, c :: cs, before, best =>
    let row := blockRow usable c right (0 :: before)
    bestBlock usable right (i + 1) cs row (bestInRow i 0 row best)

def commonStart : List Char → List Char → Nat
  | a :: as, b :: bs => if a = b then commonStart as bs + 1 else 0
  | _, _ => 0

def longestBlock (usable : Char → Bool) (left right : List Char) : Block :=
  let b := bestBlock usable right 0 left [] ⟨0, 0, 0⟩
  let back := commonStart (left.take b.left).reverse (right.take b.right).reverse
  let ahead := commonStart (left.drop (b.left + b.size)) (right.drop (b.right + b.size))
  ⟨b.left - back, b.right - back, b.size + back + ahead⟩

/-- The number of matched characters. Each round removes a block, so as many rounds as the left
word has characters suffice. -/
def matched (usable : Char → Bool) : Nat → List Char → List Char → Nat
  | 0, _, _ => 0
  | rounds + 1, left, right =>
    let b := longestBlock usable left right
    if b.size = 0 then 0
    else
      matched usable rounds (left.take b.left) (right.take b.right) + b.size +
        matched usable rounds (left.drop (b.left + b.size)) (right.drop (b.right + b.size))

structure Likeness where
  matched : Nat
  joint : Nat
  word : String
deriving DecidableEq, Repr

def likeness (word : List Char) (candidate : String) : Likeness :=
  let cs := candidate.toList
  ⟨matched (startsBlock word) cs.length cs word, cs.length + word.length, candidate⟩

def Likeness.isClose (l : Likeness) : Bool :=
  l.joint ≤ 5 * l.matched

def Likeness.before (a b : Likeness) : Bool :=
  let x := a.matched * b.joint
  let y := b.matched * a.joint
  y < x || (x == y && b.word ≤ a.word)

def closeWords (n : Nat) (candidates : List String) (word : List Char) : List String :=
  let close := (candidates.map (likeness word)).filter Likeness.isClose
  ((close.mergeSort Likeness.before).take n).map Likeness.word

end Melody.Text
