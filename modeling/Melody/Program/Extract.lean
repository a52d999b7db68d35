import Melody.Program.Definition

/-!
# Listing the commands of a text

The plain commands of a text in the order in which they stand in it, one a line. Every form is
searched for on its own, and the finds are then put in order.
-/

set_option autoImplicit false

namespace Melody.Program

open Melody.Text

def beforeSlashes : List Char → List Char
  | [] => []
  | '/' :: '/' :: _ => []
  | c :: cs => c :: beforeSlashes cs

def keywordForm (keyword : String) (cs : List Char) : Option (List Char × List Char) := do
  let (word, rest) ← word? (← Command.Line.keyword? keyword cs)
  return (keyword.toList ++ ' ' :: word, rest)

def envelopeForm (cs : List Char) : Option (List Char × List Char) := do
  let setting (name : String) (cs : List Char) : Option (List Char × List Char) := do
    let (number, rest) ← run? Command.Line.isAsciiDecimal (← dropText? name.toList (← blanks? cs))
    return (' ' :: name.toList ++ number, rest)
  let (attack, rest) ← setting "attack=" (← dropText? "configurar_envelope".toList cs)
  let (decay, rest) ← setting "decay=" rest
  let (sustain, rest) ← setting "sustain=" rest
  let (release, rest) ← setting "release=" rest
  return ("configurar_envelope".toList ++ attack ++ decay ++ sustain ++ release, rest)

def literalChordForm (cs : List Char) : Option (List Char × List Char) := do
  let body ← dropText? ['<'] (← Command.Line.keyword? "tocar" cs)
  let (notes, rest) ← upTo? '>' body
  let (duration, rest) ← word? (← blanks? rest)
  if notes.isEmpty then none
  else return ("tocar <".toList ++ notes ++ "> ".toList ++ duration, rest)

def noteForm (cs : List Char) : Option (List Char × List Char) := do
  let (name, rest) ← word? (← Command.Line.keyword? "tocar" cs)
  let rest ← blanks? rest
  let signed : Option (List Char × List Char) := do
    let (sign, rest) ← Command.Line.accidental? rest
    let (duration, rest) ← word? (← blanks? rest)
    return (' ' :: sign :: ' ' :: duration, rest)
  let plain : Option (List Char × List Char) := do
    let (duration, rest) ← word? rest
    return (' ' :: duration, rest)
  let (ending, rest) ← signed <|> plain
  return ("tocar ".toList ++ name ++ ending, rest)

def commandForms : List (List Char → Option (List Char × List Char)) :=
  [keywordForm "configurar_forma_onda", envelopeForm, literalChordForm, noteForm,
   keywordForm "pausa", keywordForm "instrumento"]

def listCommands (cs : List Char) : List (List Char) :=
  let kept := ((lines cs).map fun l => strip (beforeSlashes l)).filter fun l => !l.isEmpty
  let text := join [' '] kept
  let finds := commandForms.flatMap fun form => findAll form text
  (finds.mergeSort fun a b => a.start ≤ b.start).map (·.item)

def describeCommands (commands : List (List Char)) : List String :=
  let count := commands.length
  s!"DEBUG: Encontrados {count} comandos na ordem correta:" ::
    commands.zipIdx.map fun (command, i) =>
      let n := i + 1
      let text := String.ofList command
      s!"  {n}. {text}"

end Melody.Program
