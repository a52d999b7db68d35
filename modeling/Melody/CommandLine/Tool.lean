import Melody.CommandLine.Command
import Melody.Lint.Report
import Melody.Performance.Melody
import Melody.Source.Folder

/-!
# The programs

What the two programs do with their arguments and the files they find: events, what they write
about refused arguments, and how they end.
-/

set_option autoImplicit false

namespace Melody.CommandLine

open Act

inductive Ending where
  | returned
  | exited (code : Nat)
  | broken (reason : String)
deriving DecidableEq, Repr

structure Finished where
  events : List Event
  errors : String := ""
  ending : Ending := .returned

def printed (lines : List String) : List Event :=
  lines.map .printed

def refuse (r : Rejection) : Finished :=
  match r.refusal with
  | .help => { events := printed r.form.help, ending := .exited 0 }
  | _ => { events := [], errors := r.report, ending := .exited 2 }

def thickRuler : String := "============================================================"

def playFile (path : String) (file : Source.File) : Performance Unit := do
  if !(← Performance.load path file) then
    say (Text.red "❌ Falha na compilação. Execução cancelada.")
    halt (.exit 1)
  let program := (← read).program
  if !program.mistakes.isEmpty || !program.complaints.isEmpty then
    say (Text.red <| "❌ Erros de sintaxe detectados. " ++
      "Execução cancelada devido a erros de sintaxe.")
    halt (.exit 1)
  say "\n🎼 Iniciando execução da música..."
  if ← Performance.perform .none then say "\n✅ Execução concluída com sucesso!"
  else
    say "\n❌ Erro durante a execução da melodia."
    halt (.exit 1)

def reportFailure (reason : String) : String :=
  Text.red s!"❌ Erro durante a execução: {reason}"

def afterHalt : Halt → List String × Nat
  | .exit code => ([], code)
  | .interrupted => (["\n\n⏹️  Execução interrompida pelo usuário."], 0)
  | .fault f => ([reportFailure f.message], 1)
  | .tooDeep | .stalled => ([reportFailure "maximum recursion depth exceeded"], 1)

def play (path : String) (debug : Bool) (file : Source.File) (patience : Option Nat) :
    Finished :=
  let performer : Performer := { debug := debug, engine := { patience := patience } }
  let effect := playFile path file performer
  let heading := printed [s!"🎵 MelodyScript - Executando arquivo: {path}", thickRuler]
  let events := heading ++ Performance.opening ++ effect.events
  match effect.outcome with
  | .ok _ => { events := events }
  | .error h =>
    let (lines, code) := afterHalt h
    { events := events ++ printed lines, ending := .exited code }

def statistics (p : Program) : List String :=
  let melodies := p.melodies.length
  let chords := p.chords.length
  let tempo := p.tempo.written
  let instrument := p.instrument
  ["\n📊 Estatísticas do arquivo:", s!"   • Melodias definidas: {melodies}",
   s!"   • Acordes definidos: {chords}", "   • Funções definidas: 0",
   s!"   • Tempo: {tempo} BPM", s!"   • Instrumento padrão: {instrument}"] ++
  if p.parallel then ["   • Modo paralelo: Ativado"] else []

def check (path : String) (file : Source.File) : Finished :=
  let verdict := Program.loadFile path file {}
  let heading := [s!"🔍 MelodyScript Linter - Verificando arquivo: {path}", thickRuler]
  let closing :=
    if verdict.accepted then
      "\n✅ Arquivo válido! Nenhum erro de sintaxe encontrado." :: statistics verdict.program
    else ["\n❌ Arquivo inválido! Corrija os erros antes de executar."]
  { events := printed (heading ++ verdict.printed ++ closing)
    ending := .exited (if verdict.accepted then 0 else 1) }

def onFile (folder : Source.Folder) (path : String) (finish : Source.File → Finished) : Finished :=
  let path' := path.toList
  match folder.holds path' with
  | .ok true => finish (folder path')
  | .ok false =>
    { events := printed [Text.red s!"❌ Erro: Arquivo '{path}' não encontrado."]
      ending := .exited 1 }
  | .error problem =>
    { events := [], ending := .broken (problem.message (String.ofList (Source.tidy path'))) }

def melodyTool (program : String) (arguments : List String) (folder : Source.Folder)
    (patience : Option Nat) : Finished :=
  match readOrder program arguments with
  | .error r => refuse r
  | .ok .explain => { events := printed (mainForm program).help }
  | .ok (.run path debug) => onFile folder path fun file => play path debug file patience
  | .ok (.lint path) => onFile folder path (check path)

def linterTool (program : String) (arguments : List String) (folder : Source.Folder) : Finished :=
  match readLinterOrder program arguments with
  | .error r => refuse r
  | .ok (path, debug) =>
    let verdict := Lint.checkFile path (folder path.toList) { debug := debug }
    { events := printed verdict.printed, ending := .exited (if verdict.valid then 0 else 1) }

end Melody.CommandLine
