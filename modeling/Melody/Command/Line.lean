import Melody.Text.Recognise

/-!
# Lines

The forms that a line of a melody can take. A form is recognised at the start of the line and
what follows it is disregarded. The forms are tried in order and the first one counts.
-/

set_option autoImplicit false

namespace Melody.Command

open Melody.Text

inductive Line where
  | startParallel
  | endParallel
  | literalChord (notes duration : List Char)
  | named (name duration : List Char)
  | note (name : List Char) (accidental : Option Char) (duration : List Char)
  | pause (duration : List Char)
  | envelope (attack decay sustain release : List Char)
  | waveform (name : List Char)
  | instrument (name : List Char)
  | call (name : List Char) (arguments : List Char)
deriving DecidableEq, Repr

namespace Line

def keyword? (word : String) (cs : List Char) : Option (List Char) := do
  blanks? (← dropText? word.toList cs)

def keywordWord? (word : String) (cs : List Char) : Option (List Char) := do
  return (← word? (← keyword? word cs)).1

def duration? (cs : List Char) : Option (List Char) := do
  return (← word? (← blanks? cs)).1

def isAccidental (c : Char) : Bool :=
  c == '#' || c == 'b'

def accidental? : List Char → Option (Char × List Char)
  | [] => none
  | c :: cs => if isAccidental c then some (c, cs) else none

def literalChord? (cs : List Char) : Option Line := do
  let body ← dropText? ['<'] (← keyword? "tocar" cs)
  let (notes, rest) ← upTo? '>' body
  if notes.isEmpty then none
  else return .literalChord notes (← duration? rest)

def named? (cs : List Char) : Option Line := do
  let (name, rest) ← word? (← keyword? "tocar" cs)
  let rest ← blanks? rest
  match accidental? rest with
  | some _ => none
  | none => return .named name (← word? rest).1

def spacedAccidental? (cs : List Char) : Option Line := do
  let (name, rest) ← word? (← keyword? "tocar" cs)
  let (sign, rest) ← accidental? (← blanks? rest)
  return .note name (some sign) (← duration? rest)

def flatName? (name : List Char) : Option (List Char) :=
  if name.getLast? = some 'b' && 2 ≤ name.length then some name.dropLast else none

def joinedAccidental? (cs : List Char) : Option Line := do
  let (name, rest) ← word? (← keyword? "tocar" cs)
  match dropText? ['#'] rest with
  | some rest => return .note name (some '#') (← duration? rest)
  | none => return .note (← flatName? name) (some 'b') (← duration? rest)

def withOctave? (cs : List Char) : Option Line := do
  let (name, rest) ← word? (← keyword? "tocar" cs)
  if (name.getLast?.map isDecimal).getD false && 2 ≤ name.length then
    return .note name none (← duration? rest)
  else none

def spacedAccidentalOctave? (cs : List Char) : Option Line := do
  let (name, rest) ← word? (← keyword? "tocar" cs)
  let (sign, rest) ← accidental? (← blanks? rest)
  let (octave, rest) ← digits? (skipBlanks rest)
  return .note (name ++ octave) (some sign) (← duration? rest)

def joinedAccidentalOctave? (cs : List Char) : Option Line := do
  let (name, rest) ← word? (← keyword? "tocar" cs)
  match dropText? ['#'] rest with
  | some rest =>
    let (octave, rest) ← digits? rest
    return .note (name ++ octave) (some '#') (← duration? rest)
  | none =>
    let octave := (name.reverse.takeWhile isDecimal).reverse
    let base ← flatName? (name.take (name.length - octave.length))
    if octave.isEmpty then none
    else return .note (base ++ octave) (some 'b') (← duration? rest)

def isAsciiDecimal (c : Char) : Bool :=
  c.isDigit || c == '.'

def isAnyDecimal (c : Char) : Bool :=
  isDecimal c || c == '.'

def inlineEnvelope? (cs : List Char) : Option Line := do
  let setting (name : String) (cs : List Char) : Option (List Char × List Char) := do
    run? isAsciiDecimal (← dropText? name.toList (← blanks? cs))
  let (attack, rest) ← setting "attack=" (← dropText? "configurar_envelope".toList cs)
  let (decay, rest) ← setting "decay=" rest
  let (sustain, rest) ← setting "sustain=" rest
  let (release, _) ← setting "release=" rest
  return .envelope attack decay sustain release

def blockSetting? (name : String) (cs : List Char) : Option (List Char × List Char) := do
  let rest ← dropText? name.toList (skipBlanks cs)
  let rest ← dropText? ['='] (skipBlanks rest)
  let (number, rest) ← run? isAnyDecimal (skipBlanks rest)
  return (number, ← dropText? [';'] (skipBlanks rest))

def blockEnvelope? (cs : List Char) : Option Line := do
  let rest ← dropText? ['{'] (skipBlanks (← dropText? "configurar_envelope".toList cs))
  let (attack, rest) ← blockSetting? "attack" rest
  let (decay, rest) ← blockSetting? "decay" rest
  let (sustain, rest) ← blockSetting? "sustain" rest
  let (release, rest) ← blockSetting? "release" rest
  let _ ← dropText? ['}'] (skipBlanks rest)
  return .envelope attack decay sustain release

def call? (cs : List Char) : Option Line := do
  let (name, rest) ← word? cs
  let (arguments, _) ← upTo? ')' (← dropText? ['('] (skipBlanks rest))
  return .call name (strip arguments)

def forms : List (List Char → Option Line) :=
  [fun cs => (dropText? "inicio_paralelo".toList cs).map fun _ => .startParallel,
   fun cs => (dropText? "fim_paralelo".toList cs).map fun _ => .endParallel,
   literalChord?, named?, spacedAccidental?, joinedAccidental?, withOctave?,
   spacedAccidentalOctave?, joinedAccidentalOctave?,
   fun cs => (keywordWord? "pausa" cs).map .pause,
   inlineEnvelope?, blockEnvelope?,
   fun cs => (keywordWord? "configurar_forma_onda" cs).map .waveform,
   fun cs => (keywordWord? "instrumento" cs).map .instrument,
   call?]

def recognise (cs : List Char) : Option Line :=
  forms.findSome? fun form => form cs

end Line

end Melody.Command
