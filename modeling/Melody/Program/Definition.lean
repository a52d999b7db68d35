import Melody.Command.Structure
import Melody.Program
import Melody.Source.Comment

/-!
# Definitions

What a text defines: each global setting is the first occurrence of its form, and chords,
functions and melodies are all occurrences of theirs, from left to right.
-/

set_option autoImplicit false

namespace Melody.Program

open Melody.Text
open Melody.Command.Line (blockSetting?)

def flatten (cs : List Char) : List Char :=
  let stripped := (lines (Source.dropBlockComments .line cs)).map fun l =>
    strip (Source.dropLineComment l)
  join [' '] (stripped.filter fun l => !l.isEmpty)

def parallelWords : List String :=
  ["true", "verdadeiro", "sim", "1", "on", "ativado"]

def parallelSwitch? (cs : List Char) : Option (Unit × List Char) := do
  let rest ← blanks? (← dropForm? "modo_paralelo".toList cs)
  let rest ← parallelWords.findSome? fun w => dropForm? w.toList rest
  return ((), rest)

def hasParallelSwitch (cs : List Char) : Bool :=
  (searchFirst parallelSwitch? cs).isSome

def tempoEquals? (cs : List Char) : Option (List Char × List Char) := do
  let rest ← dropText? ['='] (skipBlanks (← dropText? "tempo".toList cs))
  digits? (skipBlanks rest)

def tempoSpaced? (cs : List Char) : Option (List Char × List Char) := do
  digits? (← blanks? (← dropText? "tempo".toList cs))

def findTempo (cs : List Char) : Option (List Char) :=
  searchFirst tempoEquals? cs <|> searchFirst tempoSpaced? cs

def findInstrument (cs : List Char) : Option (List Char) :=
  Command.Line.keywordWord? "instrumento" cs

structure EnvelopeText where
  attack : List Char
  decay : List Char
  sustain : List Char
  release : List Char

def envelope? (cs : List Char) : Option (EnvelopeText × List Char) := do
  let rest ← dropText? ['{'] (skipBlanks (← dropText? "envelope".toList cs))
  let (attack, rest) ← blockSetting? "attack" rest
  let (decay, rest) ← blockSetting? "decay" rest
  let (sustain, rest) ← blockSetting? "sustain" rest
  let (release, rest) ← blockSetting? "release" rest
  return (⟨attack, decay, sustain, release⟩, ← dropText? ['}'] (skipBlanks rest))

def EnvelopeText.value (e : EnvelopeText) : Except Fault (Envelope Float) := do
  return ⟨← parseFloat e.attack, ← parseFloat e.decay, ← parseFloat e.sustain,
    ← parseFloat e.release⟩

def waveform? (cs : List Char) : Option (List Char × List Char) := do
  word? (← blanks? (← dropText? "forma_onda".toList cs))

structure ChordText where
  name : List Char
  notes : List Char

def chord? (cs : List Char) : Option (ChordText × List Char) := do
  let (name, rest) ← word? (← blanks? (← dropText? "acorde".toList cs))
  let rest ← dropText? ['='] (skipBlanks rest)
  let (notes, rest) ← upTo? '>' (← dropText? ['<'] (skipBlanks rest))
  if notes.isEmpty then none else return (⟨name, notes⟩, rest)

def ChordText.value (c : ChordText) : List Value :=
  (words c.notes).map Command.plainNote

structure FunctionText where
  name : List Char
  parameters : List Char
  body : List Char

def function? (cs : List Char) : Option (FunctionText × List Char) := do
  let (name, rest) ← word? (← blanks? (← dropText? "funcao".toList cs))
  let (parameters, rest) ← upTo? ')' (← dropText? ['('] (skipBlanks rest))
  let (body, rest) ← spacedBlock? rest
  return (⟨name, parameters, body⟩, rest)

def FunctionText.names (f : FunctionText) : List String :=
  (((splitOn ',' f.parameters).map strip).filter fun n => !n.isEmpty).map String.ofList

def melodyHead? (cs : List Char) : Option (List Char × List Char) := do
  let (name, rest) ← word? (← blanks? (← dropText? "melodia".toList cs))
  return (name, ← dropText? ['{'] (skipBlanks rest))

def closingOffset? : Nat → List Char → Option Nat
  | _, [] => none
  | inner, c :: cs =>
    if c = '{' then (closingOffset? (inner + 1) cs).map (· + 1)
    else if c = '}' then
      match inner with
      | 0 => some 0
      | inner + 1 => (closingOffset? inner cs).map (· + 1)
    else (closingOffset? inner cs).map (· + 1)

def closingBrace? (cs : List Char) (place : Nat) : Option Nat :=
  (closingOffset? 0 (cs.drop (place + 1))).map (· + (place + 1))

/-- The same for a place that may be negative and then counts from the end: the search runs to
the end and starts over. Without a closing brace the answer is `-1`. -/
def closingPlace (cs : List Char) (place : Int) : Except Fault Int :=
  let first := place + 1
  let found (text : List Char) : Int :=
    match closingOffset? 0 text with
    | some n => first + n
    | none => -1
  if 0 ≤ first then .ok (found (cs.drop first.toNat))
  else if first < -(cs.length : Int) then .error .characterOutOfRange
  else .ok (found (cs.drop (cs.length - first.natAbs) ++ cs))

end Melody.Program
