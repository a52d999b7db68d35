import Melody.Lint.Remark
import Melody.Program.Definition
import Melody.Source.Comment

/-!
# Remarks on lines

Two sets of rules look at a program line by line: the full rules know every form of line, the
brief rules only playing and repeating. Each line is looked at without its comments and on its
own; the full rules also know the names of the functions defined anywhere in the program.
-/

set_option autoImplicit false

namespace Melody.Lint

open Melody.Text

def mentions (word : String) (line : List Char) : Bool :=
  occurs word.toList line

def startsWith (word : String) (line : List Char) : Bool :=
  (dropText? word.toList line).isSome

def clean (line : List Char) : List Char :=
  strip (Source.withoutComments line)

def calledName? (cs : List Char) : Option (List Char × List Char) := do
  let (name, rest) ← word? cs
  return (name, ← dropText? ['('] (skipBlanks rest))

def keywordWord? (keyword : String) (cs : List Char) : Option (List Char × List Char) := do
  word? (← blanks? (← dropText? keyword.toList cs))

def functionHead? (cs : List Char) : Option (List Char × List Char) := do
  let (name, rest) ← keywordWord? "funcao" cs
  return (name, ← dropText? ['('] (skipBlanks rest))

def definedFunction? (line : List Char) : Option String :=
  (searchFirst functionHead? (clean line)).map String.ofList

def repeatHead? (cs : List Char) : Option (Unit × List Char) := do
  let (_, rest) ← digits? (← blanks? (← dropText? "repetir".toList cs))
  let rest ← dropText? "vezes".toList (← blanks? rest)
  return ((), ← dropText? ['{'] (skipBlanks rest))

def shortRepeatHead? (cs : List Char) : Option (Unit × List Char) := do
  let (_, rest) ← digits? (← blanks? (← dropText? "repetir".toList cs))
  return ((), ← dropText? ['{'] (skipBlanks rest))

def branchHead? (cs : List Char) : Option (Unit × List Char) := do
  let rest ← dropText? ['('] (← blanks? (← dropText? "se".toList cs))
  let (_, rest) ← upTo? ')' rest
  return ((), ← dropText? ['{'] (skipBlanks rest))

def forEachNames? (cs : List Char) : Option (List Char) := do
  let (_, rest) ← keywordWord? "para_cada" cs
  let rest ← dropText? "em".toList (← blanks? rest)
  return (← word? (← blanks? rest)).2

def forEachHead? (cs : List Char) : Option (Unit × List Char) := do
  return ((), ← dropText? ['{'] (skipBlanks (← forEachNames? cs)))

def reversedForEachHead? (cs : List Char) : Option (Unit × List Char) := do
  let rest ← dropText? "reverso".toList (← blanks? (← forEachNames? cs))
  return ((), ← dropText? ['{'] (skipBlanks rest))

def finds {α : Type} (recognise : List Char → Option (α × List Char)) (line : List Char) : Bool :=
  (searchFirst recognise line).isSome

def semicolonIssue (line : List Char) : List Issue :=
  if line.getLast? != some ';' && line.contains ';' then [.innerSemicolon] else []

def noteSyllables : List String :=
  ["do", "re", "mi", "fa", "sol", "la", "si"]

def looksLikeNote (text : List Char) : Bool :=
  text.head? = some '<' || isParameter text ||
    noteSyllables.any fun n => occurs n.toList (lowerText text)

def dropSemicolons (word : List Char) : List Char :=
  (word.reverse.dropWhile (· == ';')).reverse

def checkPlay (line : List Char) : List Issue :=
  match words line with
  | _ :: note :: duration :: _ =>
    let duration := dropSemicolons duration
    (if looksLikeNote note then [] else [.oddNote (String.ofList note)]) ++
    (if durations.contains (String.ofList duration) || isParameter duration then []
     else [.badDuration (String.ofList duration)])
  | _ => [.badPlay]

def checkCall (defined : List String) (line : List Char) : List Issue :=
  match searchFirst calledName? line with
  | none => []
  | some name =>
    let text := String.ofList name
    if systemFunctions.contains text || defined.contains text || isParameter name then []
    else [.undefinedFunction text]

def checkWaveform (line : List Char) : List Issue :=
  match searchFirst (keywordWord? "forma_onda") line with
  | none => [.badWaveform]
  | some name =>
    if waveforms.contains (String.ofList name) then semicolonIssue line
    else [.unknownWaveform (String.ofList name)]

def checkPause (line : List Char) : List Issue :=
  (match searchFirst (keywordWord? "pausa") line with
   | none => [.badPause]
   | some name =>
     if durations.contains (String.ofList name) then []
     else [.unknownDuration (String.ofList name)]) ++ semicolonIssue line

def checkForEach (line : List Char) : List Issue :=
  if finds forEachHead? line then []
  else if !mentions "reverso" line then [.badForEach]
  else if finds reversedForEachHead? line then []
  else [.badReversedForEach]

def startsTempo (line : List Char) : Bool :=
  match dropText? "tempo".toList line with
  | some rest => (skipBlanks rest).head? = some '='
  | none => false

def checkFully (defined : List String) (line : List Char) : List Issue :=
  if startsTempo line then
    if finds Program.tempoEquals? line then [] else [.badTempo]
  else if mentions "instrumento" line && !line.contains '=' then
    if finds (keywordWord? "instrumento") line then semicolonIssue line else [.badInstrument]
  else if mentions "forma_onda" line && !line.contains '=' then checkWaveform line
  else if mentions "acorde" line && line.contains '=' then
    if finds Program.chord? line then semicolonIssue line else [.badChord]
  else if mentions "melodia" line && line.contains '{' then
    if finds Program.melodyHead? line then [] else [.badMelody]
  else if startsWith "tocar " line then checkPlay line
  else if line.contains '(' && line.contains ')' && !startsWith "se" line then
    checkCall defined line
  else if mentions "pausa" line then checkPause line
  else if mentions "repetir" line && mentions "vezes" line then
    if finds repeatHead? line then [] else [.badRepeat]
  else if startsWith "se " line && line.contains '(' then
    if finds branchHead? line then [] else [.badBranch]
  else if mentions "para_cada" line then checkForEach line
  else []

def checkBriefly (line : List Char) : List Issue :=
  if startsWith "tocar " line then
    match words line with
    | _ :: _ :: duration :: _ =>
      let text := String.ofList (dropSemicolons duration)
      if durations.contains text then [] else [.invalidDuration text]
    | _ => [.incompletePlay]
  else if mentions "repetir" line && line.contains '{' then
    if finds repeatHead? line then []
    else if finds shortRepeatHead? line then [.repeatWithoutTimes]
    else [.invalidRepeat]
  else []

def remarksOnLine (rule : List Char → List Issue) (number : Nat) (line : List Char) :
    List Remark :=
  let text := clean line
  if text.isEmpty then [] else (rule text).map fun issue => ⟨number, issue⟩

def remarksFrom (rule : List Char → List Issue) : Nat → List (List Char) → List Remark
  | _, [] => []
  | number, line :: rest =>
    remarksOnLine rule number line ++ remarksFrom rule (number + 1) rest

def definedFunctions (cs : List Char) : List String :=
  ((lines cs).filterMap definedFunction?).eraseDups

def fullRemarks (cs : List Char) : List Remark :=
  remarksFrom (checkFully (definedFunctions cs)) 1 (lines cs)

def briefRemarks (cs : List Char) : List Remark :=
  remarksFrom checkBriefly 1 (lines cs)

def describeFunctions (names : List String) : String :=
  let inside := String.intercalate ", " (names.map quote)
  if names.isEmpty then "Funções definidas: set()"
  else "Funções definidas: \x7b" ++ inside ++ "\x7d"

end Melody.Lint
