import Melody.Command.Structure
import Melody.Event

/-!
# The plain reader

A reader of its own, which writes its commands into a list as it goes. A line is tried against
one form after the other, and each form has an action that appends its command. Each kind of
block has an action that looks for its finds behind the place it is given and answers with the
place behind the last of them. About a line that is no command it only warns, and it passes over
a call of an unknown function.
-/

set_option autoImplicit false

namespace Melody.Command.Plain

open Melody.Text

abbrev Writer := Act (List Command)

def append (c : Command) : Writer Unit :=
  Act.change fun cs => cs ++ [c]

-- the octave is looked for first and taken out only if there is one
def chordNote (spelling : List Char) : Value :=
  let octave := firstDigits spelling
  let bare := if octave.isEmpty then spelling else spelling.filter fun c => !isDecimal c
  let (name, accidental) := splitAccidental bare
  noteValue (if octave.isEmpty then name else name ++ octave) accidental

def playLiteralChord (notes duration : List Char) : Writer Unit :=
  append (.playChord none (some (.list ((words (strip notes)).map chordNote))) (textSlot duration))

def playNoteOrChord (ctx : Context) (name duration : List Char) : Writer Unit :=
  match ctx.chords.find? (String.ofList name) with
  | none => append (ofNote name none duration)
  | some notes => do
    let elements ← Act.ofExcept notes.elements
    let spellings ← Act.ofExcept (elements.mapM Value.noteSpelling)
    append (.playChord (textSlot name) (some notes) (textSlot duration))
    let chord := String.ofList name
    let all := String.intercalate ", " spellings
    Act.say s!"Acorde '{chord}' ({all}) adicionado como comando"

def configureEnvelope (attack decay sustain release : List Char) : Writer Unit := do
  let a ← Act.ofExcept (parseFloat attack)
  let d ← Act.ofExcept (parseFloat decay)
  let s ← Act.ofExcept (parseFloat sustain)
  let r ← Act.ofExcept (parseFloat release)
  append (.envelope (some (.float a)) (some (.float d)) (some (.float s)) (some (.float r)))

def callFunction (ctx : Context) (name arguments : List Char) : Writer Unit :=
  if ctx.functions.contains (String.ofList name) then do
    append (.call (textSlot name) (some (.list (callArguments arguments))))
    let function := String.ofList name
    Act.say s!"Chamada de função '{function}' adicionada como comando"
  else Act.answer ()

def warn (line : List Char) : Writer Unit :=
  if (strip line).isEmpty then Act.answer ()
  else
    let text := String.ofList line
    Act.say s!"Aviso: Linha não reconhecida como comando: '{text}'"

def processLine (ctx : Context) (line : List Char) : Writer Unit :=
  if let some _ := dropText? "inicio_paralelo".toList line then append .startParallel
  else if let some _ := dropText? "fim_paralelo".toList line then append .endParallel
  else if let some (.literalChord notes duration) := Line.literalChord? line then
    playLiteralChord notes duration
  else if let some (.named name duration) := Line.named? line then
    playNoteOrChord ctx name duration
  else if let some (.note name sign duration) := Line.spacedAccidental? line then
    append (ofNote name sign duration)
  else if let some (.note name sign duration) := Line.joinedAccidental? line then
    append (ofNote name sign duration)
  else if let some (.note name sign duration) := Line.withOctave? line then
    append (ofNote name sign duration)
  else if let some (.note name sign duration) := Line.spacedAccidentalOctave? line then
    append (ofNote name sign duration)
  else if let some (.note name sign duration) := Line.joinedAccidentalOctave? line then
    append (ofNote name sign duration)
  else if let some duration := Line.keywordWord? "pausa" line then
    append (.pause (textSlot duration))
  else if let some (.envelope attack decay sustain release) := Line.inlineEnvelope? line then
    configureEnvelope attack decay sustain release
  else if let some (.envelope attack decay sustain release) := Line.blockEnvelope? line then
    configureEnvelope attack decay sustain release
  else if let some name := Line.keywordWord? "configurar_forma_onda" line then
    append (.waveform (textSlot name))
  else if let some name := Line.keywordWord? "instrumento" line then
    append (.instrument (textSlot name))
  else if let some (.call name arguments) := Line.call? line then
    callFunction ctx name arguments
  else warn line

def processEach (ctx : Context) : List (List Char) → Writer Unit
  | [] => Act.answer ()
  | line :: rest => do
    let line := strip line
    if line.isEmpty then processEach ctx rest
    else
      processLine ctx line
      processEach ctx rest

def processLines (ctx : Context) (cs : List Char) : Writer Unit :=
  processEach ctx (lines (cs.map fun c => if c = ';' then '\n' else c))

structure Processor where
  melody : List Char → Writer Unit
  lines : List Char → Writer Unit

/-- An action on a list of its own. If it halts, that list is lost. -/
def apart (m : Writer Unit) : Writer (List Command) := fun cs =>
  let block := m []
  ⟨cs, block.events, block.outcome.map fun _ => block.state⟩

/-- An action on the empty block of the last command. If it halts, the block keeps what it holds. -/
def onLast (set : List Command → Command → Command) (m : Writer Unit) : Writer Unit := fun cs =>
  let block := m []
  ⟨cs.dropLast ++ (cs.getLast?.map (set block.state)).toList, block.events, block.outcome⟩

def setWhenTrue (block : List Command) : Command → Command
  | .branch condition _ whenFalse => .branch condition (.commands block) whenFalse
  | c => c

def setWhenFalse (block : List Command) : Command → Command
  | .branch condition whenTrue _ => .branch condition whenTrue (.commands block)
  | c => c

def setBody (block : List Command) : Command → Command
  | .forEach name collection reversed _ => .forEach name collection reversed (.commands block)
  | c => c

def parallelsFrom (p : Processor) (cs : List Char) : Nat → List (Found (List Char)) → Writer Nat
  | place, [] => Act.answer place
  | place, found :: rest => do
    p.lines (slice cs place found.start)
    append .startParallel
    let block ← apart (p.melody (strip found.item))
    Act.change fun commands => commands ++ block
    append .endParallel
    parallelsFrom p cs found.stop rest

def processParallels (p : Processor) (cs : List Char) (place : Nat) : Writer Nat :=
  parallelsFrom p cs place (findAll parallel? cs)

def writeConditional (p : Processor) (c : Conditional) : Writer Unit := do
  append (.branch (textSlot c.condition) (.commands [])
    (if c.whenFalse.isEmpty then .value .none else .commands []))
  onLast setWhenTrue (p.melody c.whenTrue)
  if c.whenFalse.isEmpty then Act.answer () else onLast setWhenFalse (p.melody c.whenFalse)

def writeIteration (p : Processor) (i : Iteration) : Writer Unit := do
  append (.forEach (textSlot i.name) (textSlot i.collection) (some (.bool i.reversed))
    (.commands []))
  onLast setBody (p.melody i.body)

def writeRepetition (p : Processor) (r : Repetition) : Writer Unit := do
  let times ← Act.ofExcept (parseInt r.times)
  let body ← apart (p.melody r.body)
  append (.loop (some (.int times)) (.commands body))

-- the finds were counted from the first place, and are moved by the place reached so far
def findsFrom {α : Type} (p : Processor) (write : α → Writer Unit) (cs : List Char) :
    Nat → List (Found α) → Writer Nat
  | place, [] => Act.answer place
  | place, found :: rest => do
    let start := found.start + place
    let stop := found.stop + place
    p.lines (slice cs place start)
    write found.item
    findsFrom p write cs stop rest

def processConditionals (p : Processor) (cs : List Char) (place : Nat) : Writer Nat :=
  findsFrom p (writeConditional p) cs place (findAll conditional? (cs.drop place))

def processIterations (p : Processor) (cs : List Char) (place : Nat) : Writer Nat :=
  findsFrom p (writeIteration p) cs place (findAll iteration? (cs.drop place))

def processRepetitions (p : Processor) (cs : List Char) (place : Nat) : Writer Nat :=
  findsFrom p (writeRepetition p) cs place (findAll repetition? (cs.drop place))

def processNested (ctx : Context) : Nat → List Char → Writer Unit
  | 0, _ => Act.answer ()
  | depth + 1, cs => do
    let p : Processor := ⟨processNested ctx depth, processLines ctx⟩
    let place ← processParallels p cs 0
    let place ← processConditionals p cs place
    let place ← processIterations p cs place
    let place ← processRepetitions p cs place
    p.lines (cs.drop place)

def processMelody (ctx : Context) (cs : List Char) : Writer Unit :=
  processNested ctx (cs.length + 1) cs

end Melody.Command.Plain
