import Melody.Command.Manner
import Melody.Program.Definition
import Melody.Source.File
import Melody.Token.Check

/-!
# Loading

A text is processed in eight steps: the switch for parallel playing, the four settings, the
chords, the functions and the melodies. A file is processed only when its tokens are in order,
and is accepted when reading its melodies recorded no mistake.
-/

set_option autoImplicit false

namespace Melody.Program

open Melody.Text

def ruler : String := "-----------------------------------"

def sayIfDebug (lines : List String) (p : Program) : Loaded :=
  ⟨p, if p.debug then lines else [], none⟩

def setParallel (cs : List Char) (p : Program) : Loaded :=
  let on := hasParallelSwitch cs
  let word := if on then "Ativado" else "Desativado"
  sayIfDebug [s!"DEBUG: Modo paralelo: {word}"] { p with parallel := on }

def setTempo (cs : List Char) (p : Program) : Loaded :=
  match findTempo cs with
  | none => ⟨p, [], none⟩
  | some digits =>
    match parseInt digits with
    | .error f => ⟨p, [], some f⟩
    | .ok n => ⟨{ p with tempo := .int n }, [s!"Tempo definido: {n} BPM"], none⟩

def setInstrument (cs : List Char) (p : Program) : Loaded :=
  match findInstrument cs with
  | none => ⟨p, [], none⟩
  | some word =>
    let name := String.ofList word
    ⟨{ p with instrument := name }, [s!"Instrumento definido: {name}"], none⟩

def describeEnvelope (e : Envelope Float) : String :=
  let a := Number.writeFloat e.attack
  let d := Number.writeFloat e.decay
  let s := Number.writeFloat e.sustain
  let r := Number.writeFloat e.release
  s!"A={a}, D={d}, S={s}, R={r}"

def setEnvelope (cs : List Char) (p : Program) : Loaded :=
  match searchFirst envelope? cs with
  | none => ⟨p, [], none⟩
  | some text =>
    match text.value with
    | .error f => ⟨p, [], some f⟩
    | .ok e =>
      let stages := describeEnvelope e
      ⟨{ p with envelope := some e }, [s!"Envelope ADSR definido: {stages}"], none⟩

def setWaveform (cs : List Char) (p : Program) : Loaded :=
  match searchFirst waveform? cs with
  | none => ⟨p, [], none⟩
  | some word =>
    let name := String.ofList word
    ⟨{ p with waveform := name }, [s!"Forma de onda definida: {name}"], none⟩

def addChord (c : ChordText) (p : Program) : Loaded :=
  let name := String.ofList c.name
  let notes := c.value
  let count := notes.length
  ⟨{ p with chords := p.chords.bind name (.list notes) },
    [s!"Acorde '{name}' definido com {count} notas"], none⟩

def addChords (cs : List Char) : Program → Loaded :=
  Loaded.run ((findAll chord? cs).map fun found => addChord found.item)

def addFunction (f : FunctionText) (p : Program) : Loaded :=
  let name := String.ofList f.name
  let names := f.names
  let count := names.length
  ⟨{ p with functions := p.functions.bind name (.user names f.body) },
    [s!"Função '{name}' definida com {count} parâmetros"], none⟩

def addFunctions (cs : List Char) : Program → Loaded :=
  Loaded.run ((findAll function? cs).map fun found => addFunction found.item)

/-- A melody gets the commands that were read even when reading is stopped by a fault. -/
def addMelodyBody (name : String) (body : List Char) (p : Program) : Loaded :=
  let reading := Command.read .diagnosing p.context body
  let text := String.ofList body
  let count := reading.commands.length
  let head :=
    [s!"DEBUG: Melodia encontrada: '{name}'", "DEBUG: Conteúdo da melodia bruto:", ruler, text,
     ruler]
  let tail :=
    if reading.fault.isSome then [] else [s!"Melodia '{name}' carregada com {count} comandos"]
  ⟨{ p with
      melodies := p.melodies.bind name reading.commands
      mistakes := p.mistakes ++ reading.mistakes },
    head ++ reading.printed ++ tail, reading.fault⟩

def addMelody (cs : List Char) (found : Found (List Char)) (p : Program) : Loaded :=
  let name := String.ofList found.item
  match closingBrace? cs (found.stop - 1) with
  | none =>
    let message := s!"ERRO: Não foi possível encontrar o fechamento do bloco da melodia '{name}'"
    ⟨p, [message], none⟩
  | some stop => addMelodyBody name (slice cs found.stop stop) p

def addMelodies (cs : List Char) : Program → Loaded :=
  Loaded.run ((findAll melodyHead? cs).map (addMelody cs))

def define (cs : List Char) : Program → Loaded :=
  Loaded.run
    [sayIfDebug ["DEBUG: Conteúdo após processamento inicial:", ruler, String.ofList cs, ruler],
     setParallel cs, setTempo cs, setInstrument cs, setEnvelope cs, setWaveform cs,
     addChords cs, addFunctions cs, addMelodies cs]

def process (cs : List Char) (p : Program) : Loaded :=
  define (flatten cs) p

def numbered (items : List String) : List String :=
  items.zipIdx.map fun (item, i) =>
    let n := i + 1
    red s!"  {n}. {item}"

structure Verdict where
  program : Program
  printed : List String
  accepted : Bool

def refuseTokens (errors : List String) : List String :=
  let count := errors.length
  [red s!"\n❌ ERRO DE COMPILAÇÃO: Foram encontrados {count} erro(s) de sintaxe.",
   red "📋 Lista de erros encontrados:"] ++ numbered errors ++
  [red <| "\n🛑 A execução foi interrompida. " ++
    "Corrija TODOS os erros antes de executar o arquivo."]

def refuseMistakes (errors : List String) : List String :=
  let count := errors.length
  [red s!"\n❌ ERRO: Foram encontrados {count} erro(s) adicionais durante o processamento.",
   red "📋 Erros de processamento:"] ++ numbered errors ++
  [red "🛑 A execução foi interrompida. Corrija os erros antes de executar o arquivo."]

def reportProblem (reason : String) : String :=
  red s!"❌ Erro ao processar o arquivo: {reason}"

def describeMelodies (p : Program) : List String :=
  "DEBUG: Melodias encontradas:" ::
    p.melodies.map fun (name, commands) =>
      let count := commands.length
      s!"  - {name}: {count} comandos"

def acceptText (cs : List Char) (p : Program) : Verdict :=
  let loaded := process cs { p with mistakes := [] }
  let q := loaded.program
  match loaded.fault with
  | some f => ⟨q, loaded.printed ++ [reportProblem f.message], false⟩
  | none =>
    if q.mistakes.isEmpty then
      ⟨q, loaded.printed ++ (if q.debug then describeMelodies q else []) ++
        ["✅ Processamento concluído com sucesso!"], true⟩
    else ⟨q, loaded.printed ++ refuseMistakes (q.mistakes.map (·.message)), false⟩

def loadText (cs : List Char) (p : Program) : Verdict :=
  let shown :=
    if p.debug then ["DEBUG: Conteúdo original do arquivo:", ruler, String.ofList cs, ruler]
    else []
  let start := shown ++ ["🔍 Validando sintaxe completa do arquivo..."]
  match Token.validate cs with
  | .error f => ⟨{ p with complaints := [] }, start ++ [reportProblem f.message], false⟩
  | .ok complaints =>
    let errors := complaints.map Token.Complaint.message
    let p := { p with complaints := errors }
    if errors.isEmpty then
      let verdict := acceptText cs p
      { verdict with
        printed :=
          start ++ ["✅ Validação de sintaxe concluída com sucesso!",
            "🔄 Processando estruturas do arquivo..."] ++ verdict.printed }
    else ⟨p, start ++ refuseTokens errors, false⟩

def loadFile (path : String) (file : Source.File) (p : Program) : Verdict :=
  match file.read with
  | .ok cs => loadText cs p
  | .error .absent => ⟨p, [red s!"❌ Erro: Arquivo '{path}' não encontrado."], false⟩
  | .error problem => ⟨p, [reportProblem (problem.message path)], false⟩

end Melody.Program
