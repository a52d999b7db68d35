import Melody.Command.Read

/-!
# Reading blocks into commands

A text is searched four times: for parallel blocks, for conditionals, for iterations over a
collection, and for repetitions. Each search starts behind what the searches before it found,
and the text in front of every find is read as lines. Within one search after the first, the
place of every find is counted from the end of the find before it.
-/

set_option autoImplicit false

namespace Melody.Command

open Melody.Text

def parallel? (cs : List Char) : Option (List Char × List Char) := do
  let (body, rest) ← spacedBlock? (← dropText? "inicio_paralelo".toList cs)
  return (body, ← dropText? "fim_paralelo".toList (skipBlanks rest))

structure Conditional where
  condition : List Char
  whenTrue : List Char
  whenFalse : List Char

def alternative? (cs : List Char) : Option (List Char × List Char) := do
  spacedBlock? (← dropText? "senao".toList (skipBlanks cs))

def conditional? (cs : List Char) : Option (Conditional × List Char) := do
  let rest ← dropText? ['('] (skipBlanks (← dropText? "se".toList cs))
  let (condition, rest) ← upTo? ')' rest
  if condition.isEmpty then none
  else
    let (body, rest) ← spacedBlock? rest
    match alternative? rest with
    | some (second, rest) => return (⟨strip condition, strip body, strip second⟩, rest)
    | none => return (⟨strip condition, strip body, []⟩, rest)

structure Iteration where
  name : List Char
  collection : List Char
  reversed : Bool
  body : List Char

def collection? (cs : List Char) : Option (List Char × Bool × List Char × List Char) :=
  let plain := do
    let (name, rest) ← word? cs
    let (body, rest) ← spacedBlock? rest
    return (name, false, body, rest)
  let reversed := do
    let (name, rest) ← word? (← dropText? "reverso(".toList cs)
    let (body, rest) ← spacedBlock? (← dropText? [')'] rest)
    return (name, true, body, rest)
  plain <|> reversed

def iteration? (cs : List Char) : Option (Iteration × List Char) := do
  let rest ← blanks? (← dropText? "para".toList cs)
  let rest ← blanks? (← dropText? "cada".toList rest)
  let (name, rest) ← word? rest
  let rest ← blanks? (← dropText? "em".toList (← blanks? rest))
  let (collection, reversed, body, rest) ← collection? rest
  return (⟨name, collection, reversed, strip body⟩, rest)

structure Repetition where
  times : List Char
  body : List Char

def repetition? (cs : List Char) : Option (Repetition × List Char) := do
  let (times, rest) ← digits? (← blanks? (← dropText? "repetir".toList cs))
  let rest ← dropText? "vezes".toList (← blanks? rest)
  let (body, rest) ← spacedBlock? rest
  return (⟨times, body⟩, rest)

structure Progress where
  reading : Reading
  place : Nat

structure Readers where
  body : List Char → Reading
  lines : List Char → Reading

def readParallels (rs : Readers) (cs : List Char) : Nat → List (Found (List Char)) → Progress
  | place, [] => ⟨.empty, place⟩
  | place, found :: rest =>
    let front := rs.lines (slice cs place found.start)
    let body := (rs.body (strip found.item)).whole fun b => b ++ [.endParallel]
    let more := readParallels rs cs found.stop rest
    ⟨front.andThen ((Reading.ofCommand .startParallel).andThen (body.andThen more.reading)),
      more.place⟩

def readConditional (rs : Readers) (c : Conditional) : Reading :=
  let whenTrue := rs.body c.whenTrue
  let whenFalse := if c.whenFalse.isEmpty then .empty else rs.body c.whenFalse
  -- a fault in the block leaves the alternative unread
  let both := ({ whenTrue with commands := [] } : Reading).andThen whenFalse
  let alternative : Block := if c.whenFalse.isEmpty then .value .none else .commands both.commands
  { both with
    commands := [.branch (textSlot c.condition) (.commands whenTrue.commands) alternative] }

def readIteration (rs : Readers) (i : Iteration) : Reading :=
  (rs.body i.body).gather fun b =>
    [.forEach (textSlot i.name) (textSlot i.collection) (some (.bool i.reversed)) (.commands b)]

def readRepetition (rs : Readers) (r : Repetition) : Reading :=
  match parseInt r.times with
  | .error f => .ofFault f
  | .ok n => (rs.body r.body).whole fun b => [.loop (some (.int n)) (.commands b)]

def readFinds {α : Type} (rs : Readers) (read : α → Reading) (cs : List Char) :
    Nat → List (Found α) → Progress
  | place, [] => ⟨.empty, place⟩
  | place, found :: rest =>
    let front := rs.lines (slice cs place (found.start + place))
    let more := readFinds rs read cs (found.stop + place) rest
    ⟨front.andThen ((read found.item).andThen more.reading), more.place⟩

def search {α : Type} (rs : Readers) (recognise : List Char → Option (α × List Char))
    (read : α → Reading) (cs : List Char) (p : Progress) : Progress :=
  let more := readFinds rs read cs p.place (findAll recognise (cs.drop p.place))
  ⟨p.reading.andThen more.reading, more.place⟩

def readSearches (rs : Readers) (cs : List Char) : Reading :=
  let p := readParallels rs cs 0 (findAll parallel? cs)
  let p := search rs conditional? (readConditional rs) cs p
  let p := search rs iteration? (readIteration rs) cs p
  let p := search rs repetition? (readRepetition rs) cs p
  p.reading.andThen (rs.lines (cs.drop p.place))

def readNested (lines : List Char → Reading) : Nat → List Char → Reading
  | 0, _ => .empty
  | depth + 1, cs => readSearches ⟨readNested lines depth, lines⟩ cs

/-- The commands of a melody or of a function body. A block is shorter than the text it stands
in, so the length of the text bounds the nesting. -/
def Diagnosing.read (ctx : Context) (cs : List Char) : Reading :=
  readNested (readLines ctx) (cs.length + 1) cs

end Melody.Command
