import Melody.Text.Char
import Melody.Text.Quoted
import Melody.Text.Words

/-!
# Command line arguments

An argument is a word, a flag, or the two dashes after which everything is a word. Long flags may
be abbreviated, short ones written together. A flag takes no value: a text attached to a short flag
has to spell further ones, and any other is refused.
-/

set_option autoImplicit false

namespace Melody.CommandLine

open Melody.Text

inductive Flag where
  | help
  | debug
deriving DecidableEq, Repr

structure Form where
  program : String
  usage : String
  flags : List (Flag × List String)
  explanation : List String

inductive Refusal where
  | help
  | ambiguous (argument : String) (candidates : List String)
  | ignoredValue (flag : List String) (value : String)
  | invalidChoice (word : String) (choices : List String)
  | missingPath
  | unrecognized (arguments : List String)
deriving DecidableEq, Repr

def Refusal.message : Refusal → String
  | help => ""
  | ambiguous argument candidates =>
    let all := String.intercalate ", " candidates
    s!"ambiguous option: {argument} could match {all}"
  | ignoredValue flag value =>
    let names := String.intercalate "/" flag
    let shown := quote value
    s!"argument {names}: ignored explicit argument {shown}"
  | invalidChoice word choices =>
    let shown := quote word
    let all := String.intercalate ", " (choices.map quote)
    s!"argument comando: invalid choice: {shown} (choose from {all})"
  | missingPath => "the following arguments are required: arquivo"
  | unrecognized arguments =>
    let all := String.intercalate " " arguments
    s!"unrecognized arguments: {all}"

namespace Form

def spellings (f : Form) : List (List Char × Flag) :=
  f.flags.flatMap fun (flag, names) => names.map fun n => (n.toList, flag)

def flag? (f : Form) (spelling : List Char) : Option Flag :=
  f.spellings.lookup spelling

def names (f : Form) (flag : Flag) : List String :=
  (f.flags.lookup flag).getD []

end Form

inductive Item where
  | word
  | unknown
  | dashes
  | flag (flag : Flag) (spelling : List Char) (value : Option (List Char))

def isNegativeNumber (cs : List Char) : Bool :=
  match cs with
  | '-' :: rest =>
    let number := if rest.getLast? = some '\n' then rest.dropLast else rest
    let whole := number.takeWhile isDecimal
    match number.drop whole.length with
    | [] => !whole.isEmpty
    | '.' :: fraction => !fraction.isEmpty && fraction.all isDecimal
    | _ => false
  | _ => false

def splitSign (cs : List Char) : List Char × Option (List Char) :=
  let name := cs.takeWhile (· != '=')
  match cs.drop name.length with
  | [] => (name, none)
  | _ :: value => (name, some value)

def candidates (f : Form) (cs : List Char) : List (Flag × List Char × Option (List Char)) :=
  match cs with
  | '-' :: '-' :: _ =>
    let (name, value) := splitSign cs
    f.spellings.filterMap fun (spelling, flag) =>
      if name.isPrefixOf spelling then some (flag, spelling, value) else none
  | '-' :: c :: rest =>
    f.spellings.filterMap fun (spelling, flag) =>
      if spelling = ['-', c] then some (flag, spelling, some rest) else none
  | _ => []

def looksLikeWord (cs : List Char) : Bool :=
  cs.head? != some '-' || cs.length = 1 || isNegativeNumber cs || cs.contains ' '

def classify (f : Form) (argument : String) : Except Refusal Item :=
  let cs := argument.toList
  if cs.head? != some '-' then .ok .word
  else
    let (name, value) := splitSign cs
    match f.flag? cs, f.flag? name with
    | some flag, _ => .ok (.flag flag cs none)
    | none, some flag => .ok (.flag flag name value)
    | none, none =>
      match candidates f cs with
      | [(flag, spelling, value)] => .ok (.flag flag spelling value)
      | [] => .ok (if looksLikeWord cs then .word else .unknown)
      | several => .error (.ambiguous argument (several.map fun c => String.ofList c.2.1))

def classifyAll (f : Form) : List String → Except Refusal (List (String × Item))
  | [] => .ok []
  | "--" :: rest => .ok (("--", .dashes) :: rest.map fun a => (a, .word))
  | a :: rest => do
    let item ← classify f a
    return (a, item) :: (← classifyAll f rest)

def spread (f : Form) (flag : Flag) : List Char → Except Refusal (List Flag)
  | [] => .error (.ignoredValue (f.names flag) "")
  | c :: rest =>
    match f.flag? ['-', c], rest with
    | none, rest => .error (.ignoredValue (f.names flag) (String.ofList (c :: rest)))
    | some next, [] => .ok [flag, next]
    | some next, d :: more => do return flag :: (← spread f next (d :: more))

def flagsOf (f : Form) (flag : Flag) (spelling : List Char) (value : Option (List Char)) :
    Except Refusal (List Flag) :=
  match value with
  | none => .ok [flag]
  | some text =>
    if spelling.take 2 = ['-', '-'] then
      .error (.ignoredValue (f.names flag) (String.ofList text))
    else spread f flag text

structure Given where
  path : Option String := none
  debug : Bool := false
  extra : List String := []

def setFlags (flags : List Flag) (g : Given) : Except Refusal Given :=
  if flags.contains .help then .error .help
  else .ok { g with debug := g.debug || flags.contains .debug }

/-- The first word is the path. Two dashes next to it are dropped; elsewhere they and all other
words are left over. -/
def readItems (f : Form) : List (String × Item) → Given → Except Refusal Given
  | [], g => .ok g
  | (a, .unknown) :: rest, g => readItems f rest { g with extra := g.extra ++ [a] }
  | (_, .flag flag spelling value) :: rest, g => do
    readItems f rest (← setFlags (← flagsOf f flag spelling value) g)
  | (a, .word) :: rest, g =>
    match g.path, rest with
    | none, (_, .dashes) :: rest => readItems f rest { g with path := some a }
    | none, rest => readItems f rest { g with path := some a }
    | some _, rest => readItems f rest { g with extra := g.extra ++ [a] }
  | (a, .dashes) :: rest, g =>
    match g.path, rest with
    | none, (b, .word) :: rest => readItems f rest { g with path := some b }
    | _, rest => readItems f rest { g with extra := g.extra ++ [a] }

def readPath (f : Form) (arguments : List String) : Except Refusal (String × Given) := do
  let given ← readItems f (← classifyAll f arguments) {}
  match given.path with
  | some path => return (path, given)
  | none => .error .missingPath

end Melody.CommandLine
