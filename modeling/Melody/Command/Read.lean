import Melody.Command.Line
import Melody.Command.Reading
import Melody.Text.Colour
import Melody.Value.Access

/-!
# Reading lines into commands

The commands of a text without blocks: it is cut at semicolons and line ends and every piece is
read on its own. About a piece that is no command the diagnosing reader warns, or records what it
takes for a mistake.
-/

set_option autoImplicit false

namespace Melody.Command

open Melody.Text

structure Context where
  chords : Table Value := []
  functions : List String := []

def firstDigits (cs : List Char) : List Char :=
  (cs.dropWhile fun c => !isDecimal c).takeWhile isDecimal

/-- A name and its accidental. Wherever the sign of an accidental stands in the spelling, it is
the last character that is taken off. -/
def splitAccidental (cs : List Char) : List Char × Option Char :=
  if cs.contains '#' then (cs.dropLast, some '#')
  else if cs.contains 'b' then (cs.dropLast, some 'b')
  else (cs, none)

def literalNote (cs : List Char) : Value :=
  let (name, accidental) := splitAccidental (cs.filter fun c => !isDecimal c)
  noteValue (name ++ firstDigits cs) accidental

def plainNote (cs : List Char) : Value :=
  let (name, accidental) := splitAccidental cs
  noteValue name accidental

def readNamed (ctx : Context) (name duration : List Char) : Reading :=
  match ctx.chords.find? (String.ofList name) with
  | none => .ofCommand (ofNote name none duration)
  | some notes =>
    match notes.elements >>= fun vs => vs.mapM Value.noteSpelling with
    | .error f => .ofFault f
    | .ok spellings =>
      let chord := String.ofList name
      let all := String.intercalate ", " spellings
      { commands := [.playChord (textSlot name) (some notes) (textSlot duration)]
        printed := [s!"Acorde '{chord}' ({all}) adicionado como comando"] }

def readEnvelope (attack decay sustain release : List Char) : Reading :=
  let settings : Except Fault Command := do
    let a ← parseFloat attack
    let d ← parseFloat decay
    let s ← parseFloat sustain
    let r ← parseFloat release
    return .envelope (some (.float a)) (some (.float d)) (some (.float s)) (some (.float r))
  match settings with
  | .ok c => .ofCommand c
  | .error f => .ofFault f

def callArguments (cs : List Char) : List Value :=
  if cs.isEmpty then []
  else (splitOn ',' cs).map fun a => .text (String.ofList (strip a))

def readCall (name arguments : List Char) : Reading :=
  let function := String.ofList name
  { commands := [.call (textSlot name) (some (.list (callArguments arguments)))]
    printed := [s!"Chamada de função '{function}' adicionada como comando"] }

def warnUnrecognised (cs : List Char) : Reading :=
  let line := String.ofList cs
  .say s!"Aviso: Linha não reconhecida como comando: '{line}'"

def ofMistake (m : Mistake) : Reading :=
  { printed := [red m.message], mistakes := [m] }

def expectedDurations : List String :=
  ["seminima", "minima", "colcheia", "semibreve", "semicolcheia"]

def leftovers : List String :=
  ["\x7d repetir", "\x7b tocar", "tocar do", "tocar re", "tocar mi"]

def diagnose (line : List Char) : Reading :=
  let text := String.ofList line
  let small := lowerText line
  let mentions (words : List String) : Bool := words.any fun w => occurs w.toList line
  if occurs "reptir".toList small then ofMistake (.misspelled "reptir" text)
  else if occurs "reir".toList small then ofMistake (.misspelled "reir" text)
  else if (dropText? "tocar".toList (strip line)).isSome && !mentions expectedDurations then
    ofMistake (.playWithoutDuration text)
  else if mentions leftovers then .empty
  else warnUnrecognised line

def statementLines (cs : List Char) : List (List Char) :=
  ((lines (cs.map fun c => if c = ';' then '\n' else c)).map strip).filter fun l => !l.isEmpty

namespace Diagnosing

def readUnrecognised (line : List Char) : Reading :=
  if (strip line).isEmpty then .empty else diagnose line

def readLine (ctx : Context) (line : List Char) : Reading :=
  match Line.recognise line with
  | some .startParallel => .ofCommand .startParallel
  | some .endParallel => .ofCommand .endParallel
  | some (.literalChord notes duration) =>
    .ofCommand (.playChord none (some (.list ((words notes).map literalNote)))
      (textSlot duration))
  | some (.named name duration) => readNamed ctx name duration
  | some (.note name accidental duration) => .ofCommand (ofNote name accidental duration)
  | some (.pause duration) => .ofCommand (.pause (textSlot duration))
  | some (.envelope attack decay sustain release) => readEnvelope attack decay sustain release
  | some (.waveform name) => .ofCommand (.waveform (textSlot name))
  | some (.instrument name) => .ofCommand (.instrument (textSlot name))
  | some (.call name arguments) =>
    if ctx.functions.contains (String.ofList name) then readCall name arguments
    else readUnrecognised line
  | none => readUnrecognised line

def readLines (ctx : Context) (cs : List Char) : Reading :=
  .sequence ((statementLines cs).map (readLine ctx))

end Diagnosing

end Melody.Command
