import Melody.Scope
import Melody.Value.Access

/-!
# Functions every program has

Arguments are texts; `resolve` gives the value that an argument stands for: a quoted text, a
number, a variable, the tempo, or the text itself.
-/

set_option autoImplicit false

namespace Melody

structure Surroundings where
  scope : Scope
  globals : Table Value
  tempo : Option Value

def Value.toInteger : Value → Except Fault Int
  | .text s => parseInt s.toList
  | .int n => .ok n
  | .bool b => .ok (if b then 1 else 0)
  | .float x =>
    match Number.truncate? x with
    | some n => .ok n
    | Option.none => .error (if x.isNaN then .integerOfNan else .integerOfInfinity)
  | v => .error (.notConvertible v.kind)

namespace Function

def isQuoted (cs : List Char) : Bool :=
  cs.head? = some '"' && cs.getLast? = some '"'

def unquote (cs : List Char) : List Char :=
  (cs.drop 1).dropLast

def eraseFirst (c : Char) (cs : List Char) : List Char :=
  cs.erase c

def literalNumber? (cs : List Char) : Option Value :=
  if !cs.isEmpty && cs.all Text.isDigit then (Number.readInt cs).toOption.map .int
  else
    let digits := eraseFirst '.' cs
    if cs.contains '.' && !digits.isEmpty && digits.all Text.isDigit then
      (Number.readFloat? cs).map .float
    else none

def resolve (around : Surroundings) (argument : String) : Value :=
  let cs := argument.toList
  if isQuoted cs then .text (String.ofList (unquote cs))
  else
    match literalNumber? cs with
    | some v => v
    | none =>
      match around.scope.find? (.text argument), around.globals.find? argument with
      | some v, _ => v
      | none, some v => v
      | none, none =>
        if argument = "tempo" then around.tempo.getD (.text argument) else .text argument

inductive Builtin where
  | doubleTempo
  | halveTempo
  | transpose
  | repeatPattern
deriving DecidableEq, Repr

namespace Builtin

def all : List Builtin := [doubleTempo, halveTempo, transpose, repeatPattern]

def name : Builtin → String
  | doubleTempo => "dobrar_tempo"
  | halveTempo => "metade_tempo"
  | transpose => "transpor"
  | repeatPattern => "repetir_padrao"

def parameters : Builtin → List String
  | doubleTempo => ["valor"]
  | halveTempo => ["valor"]
  | transpose => ["nota", "modificador", "semitons"]
  | repeatPattern => ["padrao", "vezes"]

def description : Builtin → String
  | doubleTempo => "Calcula o dobro do valor de tempo fornecido."
  | halveTempo => "Calcula a metade do valor de tempo fornecido."
  | transpose => "Transpõe uma nota pelo número especificado de semitons."
  | repeatPattern => "Repete um padrão musical o número especificado de vezes."

def integerArgument (around : Surroundings) (arguments : Value) (i : Nat) : Except Fault Int := do
  match ← arguments.item i with
  | .text s => (resolve around s).toInteger
  | v => .error (.notText v.kind "startswith")

def apply (b : Builtin) (around : Surroundings) (arguments : Value) : Except Fault Value := do
  match b with
  | doubleTempo => return .int (2 * (← integerArgument around arguments 0))
  | halveTempo =>
    let n ← integerArgument around arguments 0
    let half := Number.ofRatio (decide (n < 0)) n.natAbs 2
    if half.isInf then .error .quotientOverflow else return .float half
  | transpose =>
    let note ← arguments.item 0
    let accidental ← arguments.item 1
    let steps ← integerArgument around arguments 2
    let sign := if accidental.same (.text "null") then Value.none else accidental
    return .record
      [("tipo", .text "transpor"), ("nota", note), ("modificador", sign), ("semitons", .int steps)]
  | repeatPattern =>
    let pattern ← arguments.item 0
    let times ← integerArgument around arguments 1
    return .record
      [("tipo", .text "repetir_padrao"), ("padrao", pattern), ("vezes", .int times)]

def report (result : Value) : Except Fault String :=
  match result with
  | .int n =>
    if Nat.pow 10 Number.maxIntegerDigits ≤ n.natAbs then .error .integerTooLongToWrite
    else .ok result.written
  | v => .ok v.written

end Builtin

end Function

inductive Function where
  | builtin (b : Function.Builtin)
  | user (parameters : List String) (body : List Char)

end Melody
