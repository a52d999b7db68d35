import Melody.Event
import Melody.Sound.Chord
import Melody.Value.Access

/-!
# The sound engine

The engine holds the instrument, the modes of playing and the sounds that still play. In
sequential mode a sound is waited for. In parallel mode it becomes active and gets a watcher,
which removes it when its time has come. Time passes only while the program sleeps, and the
listener may interrupt one of these sleeps.
-/

set_option autoImplicit false

namespace Melody.Sound

structure Watcher where
  sound : Nat
  due : Float

structure Engine where
  instrument : Instrument := .piano
  waveform : Waveform := Instrument.piano.timbre.waveform
  envelope : Envelope Value := Instrument.piano.timbre.envelope.map .float
  partials : List Partial := Instrument.piano.timbre.partials
  parallel : Value := .bool false
  saved : List Value := []
  temporary : Bool := false
  active : List Nat := []
  watchers : List Watcher := []
  sounds : Nat := 0
  now : Float := 0.0
  patience : Option Nat := none

namespace Engine

open Act

def useTimbre (t : Timbre) (e : Engine) : Engine :=
  { e with waveform := t.waveform, envelope := t.envelope.map .float, partials := t.partials }

def instrument? (name : Value) : Except Fault (Option Instrument) := do
  return (← name.asName).bind Instrument.ofName?

def loadTimbre (name : Value) : Act Engine Bool := do
  match ← ofExcept (instrument? name) with
  | some i =>
    change (useTimbre i.timbre)
    return true
  | none =>
    let shown := name.written
    say s!"Aviso: Instrumento '{shown}' não encontrado. Usando piano como padrão."
    change (useTimbre Instrument.piano.timbre)
    return false

def chooseInstrument (name : Value) : Act Engine Bool := do
  let shown := name.written
  match ← ofExcept (instrument? name) with
  | some i =>
    let description := i.description
    change fun e => { e.useTimbre i.timbre with instrument := i }
    say s!"Instrumento configurado: {shown} - {description}"
    return true
  | none =>
    let names := Instrument.names
    say s!"Aviso: Instrumento '{shown}' não reconhecido. Instrumentos disponíveis: {names}"
    return false

def chooseWaveform (name : Value) : Act Engine Unit :=
  match name with
  | .text s =>
    match Waveform.ofName? s with
    | some w => change fun e => { e with waveform := w }
    | none => do
      say s!"Aviso: Forma de onda '{s}' não reconhecida. Usando 'sine' como padrão."
      change fun e => { e with waveform := .sine }
  | v => fail (.notText v.kind "lower")

def chooseEnvelope (stages : Envelope (Option Value)) : Act Engine Unit :=
  change fun e => { e with envelope := e.envelope.override stages }

def onOff (mode : Value) : String :=
  if mode.isTrue then "Ativado" else "Desativado"

def setParallel (mode : Value) : Act Engine Unit := do
  let word := onOff mode
  change fun e => { e with parallel := mode }
  say s!"Modo de reprodução paralela: {word}"

def saveMode : Act Engine Unit :=
  change fun e => { e with saved := e.parallel :: e.saved }

def restoreMode : Act Engine Unit := do
  match (← read).saved with
  | mode :: rest =>
    let word := onOff mode
    change fun e => { e with parallel := mode, saved := rest }
    say s!"Modo de reprodução paralela restaurado: {word}"
  | [] => say "Aviso: Tentativa de restaurar estado paralelo sem estado salvo anteriormente"

def setTemporary (on : Bool) : Act Engine Unit := do
  let word := onOff (.bool on)
  change fun e => { e with temporary := on }
  say s!"Modo paralelo temporário: {word}"

def fire (e : Engine) (w : Watcher) : Engine :=
  { e with
    active := e.active.erase w.sound
    watchers := e.watchers.filter fun v => v.sound != w.sound }

def passUntil (stop : Float) (e : Engine) : Engine :=
  { (e.watchers.filter fun w => w.due ≤ stop).foldl fire e with now := stop }

def sleepLength (seconds : Value) : Except Fault Float :=
  asDouble (fun v => .notOrdered v.kind) seconds

def sleep (seconds : Value) : Act Engine Unit := do
  let length ← ofExcept (sleepLength seconds)
  if length < 0.0 then fail .negativePause
  let e ← read
  match e.patience with
  | some 0 => halt .interrupted
  | left =>
    emit (.slept seconds)
    change fun e => { e.passUntil (e.now + length) with patience := left.map (· - 1) }

def glance : Value := .float 0.1

def waitWithin : Nat → Act Engine Unit
  | 0 => halt .stalled
  | n + 1 => do
    if (← read).active.isEmpty then return
    sleep glance
    waitWithin n

def enoughGlances (e : Engine) : Nat :=
  let last := e.watchers.foldl (fun m w => if m < w.due then w.due else m) e.now
  2 * ((Number.truncate? ((last - e.now) * 10.0)).getD 0).toNat + 3

def awaitSounds : Act Engine Unit := do
  waitWithin (← read).enoughGlances

def stopSounds : Act Engine Unit := do
  let e ← read
  fun s => ⟨s, e.active.map .stopped, .ok ()⟩
  change fun e => { e with active := [] }

def start (channels : List Int16 × List Int16) (seconds : Value) : Act Engine Unit := do
  let e ← read
  let length ← ofExcept (sleepLength seconds)
  let id := e.sounds + 1
  change fun e => { e with sounds := id }
  emit (.started ⟨id, channels.1, channels.2⟩)
  if e.parallel.isTrue || e.temporary then
    change fun e =>
      { e with
        active := e.active ++ [id]
        watchers := e.watchers ++ [⟨id, e.now + length⟩] }
  else sleep seconds

def playNote (frequency seconds volume : Value) : Act Engine Unit := do
  let e ← read
  let level (n : Nat) := do
    return noteLevel e.waveform e.partials (← soundingPitch e.waveform e.partials n frequency)
  start (← ofExcept (render level e.envelope seconds volume)) seconds

def playChord (frequencies : List Value) (seconds volume : Value) : Act Engine Unit := do
  let e ← read
  let channels ←
    ofExcept (Chord.render e.waveform e.partials e.envelope frequencies seconds volume)
  let length ← ofExcept (sleepLength seconds)
  let id := e.sounds + 1
  emit (.started ⟨id, channels.1, channels.2⟩)
  change fun e => { e with sounds := id }
  if e.parallel.isTrue || e.temporary then
    change fun e => { e with active := e.active ++ [id] }
    change fun e => { e with watchers := e.watchers ++ [⟨id, e.now + length⟩] }
  else sleep seconds

def play (frequencies : List Value) (seconds volume : Value) : Act Engine Unit :=
  match frequencies with
  | [frequency] => playNote frequency seconds volume
  | frequencies => playChord frequencies seconds volume

def playValue (frequency seconds volume : Value) : Act Engine Unit :=
  match frequency with
  | .list frequencies => play frequencies seconds volume
  | frequency => play [frequency] seconds volume

def usualVolume : Value := .float 0.5

end Engine

end Melody.Sound
