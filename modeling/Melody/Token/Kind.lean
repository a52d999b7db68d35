import Melody.Fault
import Melody.Token

/-!
# Classifying lexemes

Every lexeme has exactly one kind: the first class of the list below that holds it. Reading the
octave of a note can fail, when the number has more digits than an integer may have.
-/

set_option autoImplicit false

namespace Melody.Token

open Melody.Text

def keywords : List String :=
  ["tempo", "instrumento", "melodia", "funcao", "acorde", "tocar", "pausa", "repetir", "vezes",
   "se", "senao", "para", "cada", "em", "reverso", "inicio_paralelo", "fim_paralelo",
   "configurar_envelope", "configurar_forma_onda", "modo_paralelo", "true", "verdadeiro", "sim",
   "false", "falso", "nao", "attack", "decay", "sustain", "release"]

def noteNames : List String :=
  ["do", "re", "mi", "fa", "sol", "la", "si", "c", "d", "e", "f", "g", "a", "b"]

def durationNames : List String :=
  ["semibreve", "minima", "seminima", "colcheia", "semicolcheia", "fusa", "semifusa"]

def instrumentNames : List String :=
  ["piano", "guitarra", "violino", "flauta", "baixo", "bateria", "saxofone", "trompete",
   "trombone", "clarinete", "orgao"]

def symbols : List String :=
  ["\x7b", "\x7d", "(", ")", "[", "]", "<", ">", ";", ",", ".", "="]

def operators : List String :=
  ["=", "==", "!=", "<", ">", "<=", ">=", "+", "-", "*", "/", "%"]

def isSmallLetter (c : Char) : Bool :=
  'a' ≤ c && c ≤ 'z'

def startsIdentifier (c : Char) : Bool :=
  c.isAlpha || c == '_'

def continuesIdentifier (c : Char) : Bool :=
  c.isAlphanum || c == '_'

def isEnd (cs : List Char) : Bool :=
  cs == [] || cs == ['\n']

def isNumeral (cs : List Char) : Bool :=
  (!cs.isEmpty && cs.all isDigit) ||
    (!(cs.takeWhile isDecimal).isEmpty &&
      match cs.dropWhile isDecimal with
      | '.' :: rest => !(rest.takeWhile isDecimal).isEmpty && isEnd (rest.dropWhile isDecimal)
      | _ => false)

def isIdentifier : List Char → Bool
  | [] => false
  | c :: cs => startsIdentifier c && isEnd (cs.dropWhile continuesIdentifier)

def highestOctave : Int := 8

def octave? (cs : List Char) : Except Fault (Option Int) :=
  let digits := cs.takeWhile isDecimal
  if !digits.isEmpty && isEnd (cs.dropWhile isDecimal) then (parseInt digits).map some
  else .ok none

def isNoteName (cs : List Char) : Bool :=
  noteNames.contains (String.ofList cs)

def octaveFits (base : List Char) (octave : Option Int) : Bool :=
  match octave with
  | some n => isNoteName base && decide (n ≤ highestOctave)
  | none => false

def isNoteWithOctave (cs : List Char) : Except Fault Bool :=
  let base := cs.takeWhile isSmallLetter
  if base.isEmpty then .ok false
  else return octaveFits base (← octave? (cs.dropWhile isSmallLetter))

def isNoteWithBoth (cs : List Char) : Except Fault Bool :=
  let letters := cs.takeWhile isSmallLetter
  match cs.dropWhile isSmallLetter with
  | '#' :: rest =>
    if letters.isEmpty then .ok false else return octaveFits letters (← octave? rest)
  | rest =>
    if letters.getLast? = some 'b' && 2 ≤ letters.length then
      return octaveFits letters.dropLast (← octave? rest)
    else .ok false

def isNote (cs : List Char) : Except Fault Bool := do
  let small := lowerText cs
  if isNoteName small then return true
  if 2 ≤ cs.length && isNoteName small.dropLast &&
      (cs.getLast? = some '#' || cs.getLast? = some 'b') then return true
  if ← isNoteWithOctave small then return true
  isNoteWithBoth small

def classify (cs : List Char) : Except Fault Kind := do
  let value := String.ofList cs
  let small := String.ofList (lowerText cs)
  if isNumeral cs then return .number
  if symbols.contains value then return .symbol
  if operators.contains value then return .operator
  if keywords.contains small then return .keyword
  if ← isNote cs then return .note
  if durationNames.contains small then return .duration
  if instrumentNames.contains small then return .instrument
  if isIdentifier cs then return .identifier
  return .unknown

end Melody.Token
