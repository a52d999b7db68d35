import Melody.Text.Words

/-!
# Recognisers

A recogniser takes a text and gives what it found at its start and the text that follows, or
nothing. Runs are always as long as possible.
-/

set_option autoImplicit false

namespace Melody.Text

def skipBlanks (cs : List Char) : List Char :=
  cs.dropWhile isBlank

def blanks? : List Char → Option (List Char)
  | [] => none
  | c :: cs => if isBlank c then some (skipBlanks cs) else none

def run? (p : Char → Bool) (cs : List Char) : Option (List Char × List Char) :=
  match cs.takeWhile p with
  | [] => none
  | run => some (run, cs.dropWhile p)

def word? (cs : List Char) : Option (List Char × List Char) :=
  run? isWordChar cs

def digits? (cs : List Char) : Option (List Char × List Char) :=
  run? isDecimal cs

def upTo? (stop : Char) : List Char → Option (List Char × List Char)
  | [] => none
  | c :: cs => if c = stop then some ([], cs) else (upTo? stop cs).map fun (a, b) => (c :: a, b)

/-- The body of a block whose brace has just been opened, and the text after its closing brace.
A block may hold blocks, and these hold none; `inner` tells whether one of them is open. -/
def block? : Bool → List Char → Option (List Char × List Char)
  | _, [] => none
  | inner, c :: cs =>
    if c = '{' then
      if inner then none else (block? true cs).map fun (a, b) => (c :: a, b)
    else if c = '}' then
      if inner then (block? false cs).map fun (a, b) => (c :: a, b) else some ([], cs)
    else (block? inner cs).map fun (a, b) => (c :: a, b)

def spacedBlock? (cs : List Char) : Option (List Char × List Char) := do
  block? false (← dropText? ['{'] (skipBlanks cs))

structure Found (α : Type) where
  start : Nat
  stop : Nat
  item : α

def findFrom {α : Type} (recognise : List Char → Option (α × List Char)) :
    Nat → Nat → List Char → List (Found α)
  | 0, _, _ => []
  | _ + 1, _, [] => []
  | fuel + 1, offset, c :: cs =>
    match recognise (c :: cs) with
    | some (item, rest) =>
      let stop := offset + ((c :: cs).length - rest.length)
      ⟨offset, stop, item⟩ :: findFrom recognise fuel stop rest
    | none => findFrom recognise fuel (offset + 1) cs

def findAll {α : Type} (recognise : List Char → Option (α × List Char)) (cs : List Char) :
    List (Found α) :=
  findFrom recognise (cs.length + 1) 0 cs

def searchFirst {α : Type} (recognise : List Char → Option (α × List Char)) :
    List Char → Option α
  | [] => (recognise []).map (·.1)
  | c :: cs =>
    match recognise (c :: cs) with
    | some (item, _) => some item
    | none => searchFirst recognise cs

def dropForm? : List Char → List Char → Option (List Char)
  | [], cs => some cs
  | _ :: _, [] => none
  | t :: ts, c :: cs => if isFormOf t c then dropForm? ts cs else none

def slice (cs : List Char) (start stop : Nat) : List Char :=
  (cs.drop start).take (stop - start)

end Melody.Text
