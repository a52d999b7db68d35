import Melody.Command.Manner
import Melody.Performance.Condition
import Melody.Performance.Play
import Melody.Performance.Substitution

/-!
# Running commands

Commands run one after another. A block in parallel mode waits at its end for its sounds. Blocks
and calls run their own commands in the same way; `execute` takes the depth to which they may
nest, and `step` is told how to run the commands inside.
-/

set_option autoImplicit false

namespace Melody.Performance

open Melody.Text
open Act

abbrev Inner := List Command → Performance Unit

def blockCommands : Block → Performance (List Command)
  | .missing => answer []
  | .value v => do return (← ofExcept v.elements).map .other
  | .commands cs => answer cs

def needBlock (name : String) : Block → Performance Block
  | .missing => fail (.missingField name)
  | b => answer b

def isFilled : Block → Bool
  | .missing => false
  | .value v => v.isTrue
  | .commands cs => !cs.isEmpty

def branch (inner : Inner) (condition : Slot) (whenTrue whenFalse : Block) : Performance Unit := do
  let condition ← need "condicao" condition
  let whenTrue ← needBlock "bloco_verdadeiro" whenTrue
  let whenFalse ← needBlock "bloco_falso" whenFalse
  let shown := condition.written
  if ← holds condition then
    say s!"Condição '{shown}' verdadeira, executando bloco principal"
    inner (← blockCommands whenTrue)
  else if isFilled whenFalse then
    say s!"Condição '{shown}' falsa, executando bloco alternativo"
    inner (← blockCommands whenFalse)
  else say s!"Condição '{shown}' falsa, pulando bloco"

def round (inner : Inner) (shown : String) (body : Block) (i : Nat) : Performance Unit := do
  let n := i + 1
  say s!"Repetição {n}/{shown}"
  inner (← blockCommands body)

def loop (inner : Inner) (times : Slot) (body : Block) : Performance Unit := do
  let times ← need "vezes" times
  let body ← needBlock "comandos" body
  let shown := times.written
  say s!"Repetindo bloco {shown} vezes"
  match times.asInt? with
  | some n => repeatFrom (round inner shown body) 0 n.toNat
  | none => fail (.notCountable times.kind)

def findCollection (name : Value) : Performance (Option Value) := do
  let p ← read
  let shown := name.written
  let text ← ofExcept name.asName
  match p.scope.find? name, text.bind p.program.chords.find?, text.bind p.globals.find? with
  | some v, _, _ =>
    say s!"Usando coleção '{shown}' do escopo atual"
    return some v
  | none, some v, _ =>
    say s!"Usando acorde '{shown}' definido globalmente"
    return some v
  | none, none, some v =>
    say s!"Usando coleção '{shown}' do escopo global"
    return some v
  | none, none, none =>
    say s!"Erro: Coleção '{shown}' não encontrada para iteração."
    return none

def isChordText (cs : List Char) : Bool :=
  cs.head? = some '<' && cs.getLast? = some '>'

def collectionItems? : Value → Option (List Value)
  | .list items => some items
  | .text s =>
    if isChordText s.toList then
      some ((words (Function.unquote s.toList)).map Command.plainNote)
    else none
  | _ => none

def showItem (v : Value) : Except Fault String :=
  if v.hasField "nota" then v.noteSpelling else .ok v.written

def bindItem (name item : Value) : Performance Unit := do
  let _ ← ofExcept name.asName
  change fun p => { p with scope := p.scope.bind name item }

def forItems (inner : Inner) (name : Value) (body : Block) : List Value → Performance Unit
  | [] => answer ()
  | item :: rest => do
    bindItem name item
    let shown ← ofExcept (showItem item)
    say s!"  Iterando elemento: {shown}"
    let body' ← substituteBlock "comandos" body
    inner (← blockCommands body')
    forItems inner name body rest

def iterate (inner : Inner) (name collection : Value) (backwards : Bool) (body : Block)
    (items : List Value) : Performance Unit := do
  let shown := collection.written
  let mark := if backwards then "(reverso)" else ""
  let count := items.length
  if backwards then say s!"Aplicando reversão à coleção '{shown}'"
  say s!"Iterando sobre {shown} {mark} com {count} elementos"
  let before := (← read).scope
  forItems inner name body (if backwards then items.reverse else items)
  setScope before

def forEach (inner : Inner) (name collection reversed : Slot) (body : Block) :
    Performance Unit := do
  let name ← need "variavel" name
  let collection ← need "colecao" collection
  let reversed ← need "reverso" reversed
  let body ← needBlock "comandos" body
  match ← findCollection collection with
  | none => return
  | some v =>
    match collectionItems? v with
    | some items => iterate inner name collection reversed.isTrue body items
    | none =>
      let shown := collection.written
      say s!"Erro: '{shown}' não é uma coleção válida para iteração."

def callBuiltin (name : String) (b : Function.Builtin) (arguments : Value) :
    Performance Value := do
  let p ← read
  let around : Surroundings := ⟨p.scope, p.globals, some p.program.tempo⟩
  let result := do
    let v ← b.apply around arguments
    return (v, ← Function.Builtin.report v)
  match result with
  | .ok (v, shown) =>
    say s!"Função '{name}' executada: {shown}"
    return v
  | .error f =>
    let reason := f.message
    say s!"Erro ao executar função predefinida '{name}': {reason}"
    return .none

def argumentValue (argument : Value) : Performance Value := do
  let p ← read
  match ← ofExcept argument.asName with
  | none => return argument
  | some s =>
    match p.program.chords.find? s, p.globals.find? s with
    | some v, _ => return v
    | none, some v => return v
    | none, none => return if s = "tempo" then p.program.tempo else argument

def bindParameters (arguments : Value) : Nat → List String → Performance Unit
  | _, [] => answer ()
  | i, name :: rest => do
    let v ← argumentValue (← ofExcept (arguments.item i))
    change fun p => { p with scope := p.scope.bind (.text name) v }
    bindParameters arguments (i + 1) rest

def readBody (body : List Char) : Performance (List Command) := fun p =>
  -- the mistakes are recorded anew at every call
  let reading := Command.read .diagnosing p.program.context body
  let program := { p.program with mistakes := p.program.mistakes ++ reading.mistakes }
  ⟨{ p with program := program }, reading.printed.map .printed,
    match reading.fault with
    | some f => .error (.fault f)
    | none => .ok reading.commands⟩

def callUser (inner : Inner) (name : String) (parameters : List String) (body : List Char)
    (arguments : Value) : Performance Value := do
  say s!"Executando função '{name}'"
  let before := (← read).scope
  setScope []
  let given ← ofExcept arguments.count
  let wanted := parameters.length
  if given = wanted then
    bindParameters arguments 0 parameters
    let commands ← readBody body
    inner (← substituteAll commands)
    setScope before
  else
    say s!"Erro: Função '{name}' espera {wanted} argumentos, mas recebeu {given}"
    setScope before
  return .none

def call (inner : Inner) (function arguments : Slot) : Performance Value := do
  let function ← need "nome_funcao" function
  let arguments ← need "argumentos" arguments
  let shown := function.written
  let known ← ofExcept function.asName
  match known.bind (← read).program.functions.find? with
  | some (.builtin b) => callBuiltin shown b arguments
  | some (.user parameters body) => callUser inner shown parameters body arguments
  | none =>
    say s!"Erro: Função '{shown}' não encontrada."
    return .none

def kindOf : Command → Except Fault String
  | .play _ _ _ => .ok "tocar"
  | .playChord _ _ _ => .ok "tocar_acorde"
  | .pause _ => .ok "pausa"
  | .envelope _ _ _ _ => .ok "configurar_envelope"
  | .waveform _ => .ok "configurar_forma_onda"
  | .instrument _ => .ok "instrumento"
  | .startParallel => .ok "inicio_paralelo"
  | .endParallel => .ok "fim_paralelo"
  | .branch _ _ _ => .ok "condicional"
  | .loop _ _ => .ok "repeticao"
  | .forEach _ _ _ _ => .ok "para_cada"
  | .call _ _ => .ok "chamada_funcao"
  | .marked _ c => kindOf c
  | .other v => (v.fieldOf "tipo").map Value.written

def ignore (c : Command) : Performance Unit := do
  let kind ← ofExcept (kindOf c)
  say s!"Aviso: Comando tipo '{kind}' não reconhecido. Ignorando."

def step (inner : Inner) (c : Command) : Performance Unit :=
  match c.core with
  | .play note accidental duration => playNote note accidental duration
  | .playChord name notes duration => playChord name notes duration
  | .pause duration => pause duration
  | .envelope attack decay sustain release => setEnvelope attack decay sustain release
  | .waveform name => setWaveform name
  | .instrument name => setInstrument name
  | .branch condition whenTrue whenFalse => branch inner condition whenTrue whenFalse
  | .loop times body => loop inner times body
  | .forEach name collection reversed body => forEach inner name collection reversed body
  | .call function arguments => do
    let _ ← call inner function arguments
  | c => ignore c

def awaitBlock : Performance Unit := do
  say "Aguardando sons do bloco paralelo terminarem..."
  sound Sound.Engine.awaitSounds

def openParallel : Performance Unit := do
  sayIfDebug "DEBUG: Iniciando bloco paralelo"
  sound Sound.Engine.saveMode
  sound (Sound.Engine.setParallel (.bool true))

def closeParallel (isOpen : Bool) : Performance Unit := do
  sayIfDebug "DEBUG: Finalizando bloco paralelo"
  if isOpen then awaitBlock
  sound Sound.Engine.restoreMode

def announce (c : Command) : Performance Unit := do
  let kind ← ofExcept (kindOf c)
  sayIfDebug s!"DEBUG: Executando comando tipo '{kind}'"

def runAll (one : Command → Performance Unit) : Bool → List Command → Performance Unit
  | isOpen, [] => do
    if isOpen then
      awaitBlock
      sound Sound.Engine.restoreMode
  | isOpen, c :: cs => do
    announce c
    match c.core with
    | .startParallel =>
      openParallel
      runAll one true cs
    | .endParallel =>
      closeParallel isOpen
      runAll one false cs
    | c =>
      one c
      runAll one isOpen cs

def execute : Nat → List Command → Performance Unit
  | 0, _ => halt .tooDeep
  | depth + 1, cs => runAll (step (execute depth)) false cs

def depthLimit : Nat := 490

def run (cs : List Command) : Performance Unit :=
  execute depthLimit cs

end Melody.Performance
