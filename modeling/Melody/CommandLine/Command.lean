import Melody.CommandLine.Argument

/-!
# Commands of the command line

There are two programs: one plays a file or checks it with the readers of the language, the other
checks it with the linter. Each has its form, and the arguments are read into an order.
-/

set_option autoImplicit false

namespace Melody.CommandLine

def helpFlag : Flag × List String := (.help, ["-h", "--help"])

def mainForm (program : String) : Form where
  program := program
  usage := "[-h] \x7bexecutar,lint\x7d ..."
  flags := [helpFlag]
  explanation :=
    ["MelodyScript - Linguagem de programação para criação de música", "",
     "positional arguments:",
     "  \x7bexecutar,lint\x7d  Comandos disponíveis",
     "    executar       Executa um arquivo MelodyScript",
     "    lint           Verifica a sintaxe de um arquivo MelodyScript", "",
     "options:",
     "  -h, --help       show this help message and exit", "",
     "Exemplos de uso:",
     "  melodyscript executar arquivo.mscr           # Executa um arquivo MelodyScript",
     "  melodyscript executar arquivo.mscr --debug   # Executa com modo debug ativado",
     "  melodyscript lint arquivo.mscr               # Verifica sintaxe sem executar",
     "        "]

def runForm (program : String) : Form where
  program := s!"{program} executar"
  usage := "[-h] [--debug] arquivo"
  flags := [helpFlag, (.debug, ["--debug"])]
  explanation :=
    ["positional arguments:", "  arquivo     Caminho para o arquivo .mscr", "", "options:",
     "  -h, --help  show this help message and exit", "  --debug     Ativa o modo debug"]

def lintForm (program : String) : Form where
  program := s!"{program} lint"
  usage := "[-h] arquivo"
  flags := [helpFlag]
  explanation :=
    ["positional arguments:", "  arquivo     Caminho para o arquivo .mscr", "", "options:",
     "  -h, --help  show this help message and exit"]

def linterForm (program : String) : Form where
  program := program
  usage := "[-h] [-d] arquivo"
  flags := [helpFlag, (.debug, ["-d", "--debug"])]
  explanation :=
    ["MelodyScript Linter - Validador de código MelodyScript", "",
     "positional arguments:", "  arquivo      Caminho para o arquivo .mscr a ser validado", "",
     "options:", "  -h, --help   show this help message and exit",
     "  -d, --debug  Ativar modo de debug"]

inductive Order where
  | explain
  | run (path : String) (debug : Bool)
  | lint (path : String)
deriving DecidableEq, Repr

structure Rejection where
  form : Form
  refusal : Refusal

def Form.usageLine (f : Form) : String :=
  let program := f.program
  let usage := f.usage
  s!"usage: {program} {usage}"

def Form.help (f : Form) : List String :=
  f.usageLine :: "" :: f.explanation

def Rejection.report (r : Rejection) : String :=
  let usage := r.form.usageLine
  let program := r.form.program
  let message := r.refusal.message
  s!"{usage}\n{program}: error: {message}\n"

def refuseBy {α : Type} (f : Form) : Except Refusal α → Except Rejection α
  | .ok a => .ok a
  | .error e => .error ⟨f, e⟩

def complete (f : Form) (extra : List String) (order : Order) : Except Rejection Order :=
  if extra.isEmpty then .ok order else .error ⟨f, .unrecognized extra⟩

def readCommand (program name : String) (extra arguments : List String) :
    Except Rejection Order := do
  let form := mainForm program
  match name with
  | "executar" =>
    let (path, given) ← refuseBy (runForm program) (readPath (runForm program) arguments)
    complete form (extra ++ given.extra) (.run path given.debug)
  | "lint" =>
    let (path, given) ← refuseBy (lintForm program) (readPath (lintForm program) arguments)
    complete form (extra ++ given.extra) (.lint path)
  | name => .error ⟨form, .invalidChoice name ["executar", "lint"]⟩

def readOrderFrom (program : String) (extra : List String) :
    List (String × Item) → Except Rejection Order
  | [] => complete (mainForm program) extra .explain
  | (name, .word) :: rest => readCommand program name extra (rest.map (·.1))
  | (a, .unknown) :: rest => readOrderFrom program (extra ++ [a]) rest
  | (a, .dashes) :: rest =>
    if rest.isEmpty then complete (mainForm program) (extra ++ [a]) .explain
    else readCommand program a extra (rest.map (·.1))
  | (_, .flag flag spelling value) :: rest => do
    let form := mainForm program
    let flags ← refuseBy form (flagsOf form flag spelling value)
    if flags.contains .help then .error ⟨form, .help⟩
    readOrderFrom program extra rest

def readOrder (program : String) (arguments : List String) : Except Rejection Order := do
  let form := mainForm program
  readOrderFrom program [] (← refuseBy form (classifyAll form arguments))

def readLinterOrder (program : String) (arguments : List String) :
    Except Rejection (String × Bool) := do
  let form := linterForm program
  let (path, given) ← refuseBy form (readPath form arguments)
  if given.extra.isEmpty then return (path, given.debug)
  else .error ⟨form, .unrecognized given.extra⟩

end Melody.CommandLine
