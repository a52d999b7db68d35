import Melody.Performance
import Melody.Text.Colour
import Melody.Theory.Untyped

/-!
# Playing

Commands that go to the sound engine. A note, a chord or a pause with a bad value ends the
program with an exit code; the settings never do.
-/

set_option autoImplicit false

namespace Melody.Performance

open Act

def durationSeconds (duration : Value) : Performance Float := do
  ofExcept (Theory.durationSeconds duration (← read).program.tempo)

def stopOnBadValue (reason : String) (m : Performance Unit) : Performance Unit := fun p =>
  let e := m p
  match e.outcome with
  | .error (.fault f) =>
    if f.isBadValue then
      let message := f.message
      let lines :=
        [Text.red s!"❌ {message}", Text.red s!"🛑 Execução interrompida devido a erro {reason}."]
      ⟨e.state, e.events ++ lines.map .printed, .error (.exit 1)⟩
    else e
  | _ => e

def playNote (note accidental duration : Slot) : Performance Unit := do
  let note ← need "nota" note
  let accidental ← need "modificador" accidental
  let duration ← need "duracao" duration
  stopOnBadValue "na nota/duração" do
    let frequency ← ofExcept (Theory.noteFrequency note accidental)
    let seconds ← durationSeconds duration
    let spelled := note.written ++ accidental.writtenIfTrue
    let lasting := duration.written
    let instrument ← instrumentName
    say s!"Tocando {spelled} ({lasting}) - Instrumento: {instrument}"
    sound (Sound.Engine.play [.float frequency] (.float seconds) Sound.Engine.usualVolume)

def chordNotes (name : Slot) (notes : Value) : Performance Value := do
  match name with
  | none => return notes
  | some v =>
    if v.isTrue then
      match ← lookup v with
      | some (.list items) => return .list items
      | _ => return notes
    else return notes

def chordPitches : List Value → Except Fault (List (Float × String))
  | [] => .ok []
  | v :: rest => do
    let note ← v.fieldOf "nota"
    let accidental ← v.fieldOf "modificador"
    let frequency ← Theory.noteFrequency note accidental
    return (frequency, note.written ++ accidental.writtenIfTrue) :: (← chordPitches rest)

def showChord (name : Slot) (spellings : List String) : String :=
  match name with
  | some v =>
    if v.isTrue then v.written ++ " (" ++ String.intercalate ", " spellings ++ ")"
    else "<" ++ String.intercalate " " spellings ++ ">"
  | none => "<" ++ String.intercalate " " spellings ++ ">"

def playChord (name notes duration : Slot) : Performance Unit := do
  let duration ← need "duracao" duration
  let notes ← need "notas" notes
  stopOnBadValue "no acorde" do
    let notes ← chordNotes name notes
    let seconds ← durationSeconds duration
    let pitches ← ofExcept (notes.elements >>= chordPitches)
    let shown := showChord name (pitches.map (·.2))
    let lasting := duration.written
    let instrument ← instrumentName
    say s!"Tocando acorde {shown} ({lasting}) - Instrumento: {instrument}"
    let frequencies := pitches.map fun p => Value.float p.1
    sound (Sound.Engine.play frequencies (.float seconds) Sound.Engine.usualVolume)

def pause (duration : Slot) : Performance Unit := do
  let duration ← need "duracao" duration
  stopOnBadValue "na duração da pausa" do
    let seconds ← durationSeconds duration
    let lasting := duration.written
    let instrument ← instrumentName
    say s!"Pausa ({lasting}) - Instrumento: {instrument}"
    sound (Sound.Engine.sleep (.float seconds))

def given : Slot → Option Value
  | some .none => none
  | slot => slot

def setEnvelope (attack decay sustain release : Slot) : Performance Unit := do
  sound (Sound.Engine.chooseEnvelope ⟨given attack, given decay, given sustain, given release⟩)
  let e := (← read).engine.envelope.map Value.written
  let a := e.attack
  let d := e.decay
  let s := e.sustain
  let r := e.release
  let instrument ← instrumentName
  say s!"Envelope ADSR configurado: A={a}, D={d}, S={s}, R={r} - Instrumento: {instrument}"

def setWaveform (name : Slot) : Performance Unit := do
  sound (Sound.Engine.chooseWaveform (← need "waveform" name))
  let shown := (← read).engine.waveform.name
  let instrument ← instrumentName
  say s!"Forma de onda configurada: {shown} - Instrumento: {instrument}"

def setInstrument (name : Slot) : Performance Unit := do
  let name ← need "nome" name
  let shown := name.written
  if ← sound (Sound.Engine.chooseInstrument name) then
    say s!"Instrumento alterado para: {shown}"
  else say s!"Erro ao configurar instrumento: {shown}"

end Melody.Performance
