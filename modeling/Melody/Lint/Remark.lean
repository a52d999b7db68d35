import Melody.Lint.Vocabulary

/-!
# Remarks

What the linter can say about a line, and how serious it is.
-/

set_option autoImplicit false

namespace Melody.Lint

inductive Severity where
  | error
  | warning
deriving DecidableEq, Repr

inductive Issue where
  | badTempo
  | badInstrument
  | badWaveform
  | unknownWaveform (name : String)
  | badChord
  | badMelody
  | badPlay
  | oddNote (text : String)
  | badDuration (text : String)
  | undefinedFunction (name : String)
  | badPause
  | unknownDuration (name : String)
  | badRepeat
  | badBranch
  | badForEach
  | badReversedForEach
  | innerSemicolon
  | incompletePlay
  | invalidDuration (text : String)
  | repeatWithoutTimes
  | invalidRepeat
deriving DecidableEq, Repr

def durationList : String := String.intercalate ", " durations

def waveformList : String := String.intercalate ", " waveforms

namespace Issue

def severity : Issue → Severity
  | unknownWaveform _ | oddNote _ | undefinedFunction _ | unknownDuration _ | innerSemicolon =>
    .warning
  | _ => .error

def text : Issue → String
  | badTempo => "Sintaxe inválida para definição de tempo. Use 'tempo = 120'"
  | badInstrument => "Sintaxe inválida para definição de instrumento. Use 'instrumento piano'"
  | badWaveform => "Sintaxe inválida para definição de forma de onda. Use 'forma_onda sine'"
  | unknownWaveform name =>
    s!"Forma de onda '{name}' não reconhecida. Valores válidos: {waveformList}"
  | badChord => "Sintaxe inválida para definição de acorde. Use 'acorde DoMaior = <do mi sol>'"
  | badMelody => "Sintaxe inválida para início de melodia. Use 'melodia nome_da_melodia \x7b'"
  | badPlay => "Sintaxe inválida para comando 'tocar'. Use 'tocar do minima'"
  | oddNote text => s!"Possível erro na nota/acorde '{text}'"
  | badDuration text => s!"Duração inválida: '{text}'. Valores válidos: {durationList}"
  | undefinedFunction name => s!"Possível chamada de função não definida: '{name}'"
  | badPause => "Sintaxe inválida para comando pausa. Use 'pausa minima'"
  | unknownDuration name =>
    s!"Duração '{name}' não reconhecida. Valores válidos: {durationList}"
  | badRepeat => "Sintaxe inválida para comando repetir. Use 'repetir 4 vezes \x7b'"
  | badBranch => "Sintaxe inválida para estrutura condicional 'se'. Use 'se (condição) \x7b'"
  | badForEach => "Sintaxe inválida para 'para_cada'. Use 'para_cada elemento em coleção \x7b'"
  | badReversedForEach =>
    "Sintaxe inválida para 'para_cada reverso'. Use 'para_cada elemento em coleção reverso \x7b'"
  | innerSemicolon => "Ponto e vírgula não deve estar no meio da linha"
  | incompletePlay => "Comando 'tocar' incompleto. Use: 'tocar nota duracao'"
  | invalidDuration text =>
    s!"Duração '{text}' é inválida. Use uma das seguintes: {durationList}"
  | repeatWithoutTimes => "Sintaxe incorreta para 'repetir'. Use: 'repetir N vezes \x7b'"
  | invalidRepeat => "Sintaxe inválida para comando 'repetir'. Use: 'repetir N vezes \x7b'"

end Issue

structure Remark where
  line : Nat
  issue : Issue
deriving DecidableEq, Repr

def Remark.message (r : Remark) : String :=
  let line := r.line
  let text := r.issue.text
  s!"Linha {line}: {text}"

def messages (severity : Severity) (remarks : List Remark) : List String :=
  (remarks.filter fun r => r.issue.severity = severity).map Remark.message

end Melody.Lint
