import Melody.Lint.Balance
import Melody.Lint.Line
import Melody.Lint.Spelling
import Melody.Source.File

/-!
# The linter

A text is examined for balance, by the brief rules and for misspelled words. It is valid when
there are no errors; warnings do not count.
-/

set_option autoImplicit false

namespace Melody.Lint

open Melody.Text

structure Findings where
  errors : List String := []
  warnings : List String := []

structure Linter where
  debug : Bool := false
  findings : Findings := {}

def examine (cs : List Char) : Findings :=
  let text := Source.withoutComments cs
  let remarks := briefRemarks cs
  ⟨balanceErrors text ++ messages .error remarks,
    messages .warning remarks ++ spellingWarnings text⟩

def lineNumber? (error : String) : Option Int :=
  match splitText "Linha ".toList error.toList with
  | _ :: rest :: _ => (Number.readInt ((splitOn ':' rest).headD [])).toOption
  | _ => none

def quoteLine (cs : List Char) (error : String) : List String :=
  match lineNumber? error with
  | none => []
  | some n =>
    if n < 1 then []
    else
      match (lines cs)[n.toNat - 1]? with
      | some line =>
        let text := String.ofList (strip line)
        [s!"  Linha {n}: '{text}'"]
      | none => []

def listed (what : String) (items : List String) : List String :=
  let count := items.length
  if items.isEmpty then []
  else s!"Encontrados {count} {what}:" :: items.map fun item => s!"  - {item}"

def present (debug : Bool) (name : String) (cs : List Char) (f : Findings) : List String :=
  if f.errors.isEmpty && f.warnings.isEmpty then
    let shown := if name = "" then "arquivo" else name
    [s!"{shown} é válido."]
  else
    (if debug && !f.errors.isEmpty then
      "\nDebug de linhas com erro:" :: f.errors.flatMap (quoteLine cs) ++ [""]
     else []) ++ listed "erros" f.errors ++ listed "avisos" f.warnings

structure Verdict where
  linter : Linter
  printed : List String
  valid : Bool

def checkText (name : String) (cs : List Char) (l : Linter) : Verdict :=
  let findings := examine cs
  let described :=
    if l.debug then describeChordDelimiters (Source.withoutComments cs) else []
  ⟨{ l with findings := findings }, described ++ present l.debug name cs findings,
    findings.errors.isEmpty⟩

def checkFile (path : String) (file : Source.File) (l : Linter) : Verdict :=
  match file.read with
  | .ok cs => checkText path cs l
  | .error .absent => ⟨l, [s!"Erro: Arquivo '{path}' não encontrado."], false⟩
  | .error problem =>
    let reason := problem.message path
    ⟨l, [s!"Erro ao abrir o arquivo: {reason}"], false⟩

end Melody.Lint
