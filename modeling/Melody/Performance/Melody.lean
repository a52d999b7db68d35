import Melody.Performance.Run
import Melody.Program.Load

/-!
# Performing a melody

A program is loaded from a file, and one of its melodies is played after the global settings
went to the engine.
-/

set_option autoImplicit false

namespace Melody.Performance

open Act

def opening : List Event := [.opened]

def process (cs : List Char) : Performance Unit := fun p =>
  let loaded := Program.process cs p.program
  ⟨{ p with program := loaded.program }, loaded.printed.map .printed,
    match loaded.fault with
    | some f => .error (.fault f)
    | none => .ok ()⟩

def describe (p : Program) : List String :=
  let tempo := p.tempo.written
  let instrument := p.instrument
  let waveform := p.waveform
  let melodies := p.melodies.length
  let chords := p.chords.length
  let functions := p.functions.length
  ["DEBUG: Informações do arquivo carregado:", s!"  - Tempo: {tempo} BPM",
   s!"  - Instrumento: {instrument}", s!"  - Forma de onda: {waveform}",
   s!"  - Melodias: {melodies}", s!"  - Acordes definidos: {chords}",
   s!"  - Funções definidas: {functions}"]

def load (path : String) (file : Source.File) : Performance Bool := fun p =>
  let verdict := Program.loadFile path file { p.program with debug := p.debug }
  let more := if p.debug && verdict.accepted then describe verdict.program else []
  ⟨{ p with program := verdict.program }, (verdict.printed ++ more).map .printed,
    .ok verdict.accepted⟩

def applySettings : Performance Unit := do
  let program := (← read).program
  let instrument := program.instrument
  if instrument ≠ "" then
    let _ ← sound (Sound.Engine.chooseInstrument (.text instrument))
    sayIfDebug s!"DEBUG: Configurando instrumento: {instrument}"
  match program.envelope with
  | some e => sound (Sound.Engine.chooseEnvelope (e.map fun x => some (.float x)))
  | none => answer ()
  if program.waveform ≠ "" then sound (Sound.Engine.chooseWaveform (.text program.waveform))
  let mode := Value.bool program.parallel
  sound (Sound.Engine.setParallel mode)
  let word := Sound.Engine.onOff mode
  sayIfDebug s!"DEBUG: Configurando modo paralelo: {word}"

def chooseMelody (name : Value) (melodies : Table (List Command)) : Value :=
  match melodies with
  | first :: _ => if name.isTrue then name else .text first.1
  | [] => name

def perform (name : Value) : Performance Bool := do
  let melodies := (← read).program.melodies
  let chosen := chooseMelody name melodies
  let shown := chosen.written
  match (← ofExcept chosen.asName).bind melodies.find? with
  | none =>
    say s!"Erro: Melodia '{shown}' não encontrada."
    return false
  | some commands =>
    say s!"Executando melodia: {shown}"
    applySettings
    run commands
    if (← read).program.parallel then
      say "Aguardando todos os sons terminarem..."
      sound Sound.Engine.awaitSounds
    say s!"Melodia '{shown}' concluída!"
    return true

def startTemporary : Performance Unit := do
  say "Iniciando bloco de reprodução paralela"
  sound (Sound.Engine.setTemporary true)

def stopTemporary : Performance Unit := do
  say "Finalizando bloco de reprodução paralela"
  sound (Sound.Engine.setTemporary false)

end Melody.Performance
