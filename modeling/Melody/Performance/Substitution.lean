import Melody.Performance
import Melody.Value.Access

/-!
# Substitution

Before the body of a function or of an iteration runs, the variables in its commands are
replaced by their values: notes, durations, chords, numbers of repetitions and arguments. Names
that no variable has stay as they are, and so do conditions and collections, which are looked up
when the command runs.
-/

set_option autoImplicit false

namespace Melody.Performance

open Act

def fallbackNote : String := "do"

def fallbackDuration : String := "seminima"

def orFallback (what fallback : String) (name v : Value) : Performance Value :=
  match v with
  | .text "" | .none | .bool _ | .int _ | .float _ | .list _ | .record _ => do
    let shown := name.written
    say s!"Aviso: {what} '{shown}' não reconhecida ou não definida."
    return .text fallback
  | .text s => answer (.text s)

def fillDuration (duration : Slot) : Performance Slot := do
  let name ← need "duracao" duration
  let v := match ← lookup name with
    | some v => Value.text v.written
    | none => name
  return some (← orFallback "Duração" fallbackDuration name v)

def fillNote (name : Value) (accidental : Slot) : Performance (Value × Slot) := do
  match ← lookup name with
  | none => return (name, accidental)
  | some v =>
    if v.hasField "nota" then
      return (← ofExcept (v.fieldOf "nota"), some (← ofExcept (v.fieldOf "modificador")))
    else return (.text v.written, accidental)

def fillPlay (note accidental duration : Slot) : Performance Command := do
  let name ← need "nota" note
  let (v, accidental) ← fillNote name accidental
  let v ← orFallback "Nota" fallbackNote name v
  return .play (some v) accidental (← fillDuration duration)

def ifList (v : Value) (otherwise : Slot) : Slot :=
  match v with
  | .list _ => some v
  | _ => otherwise

def fillChord (name notes : Slot) : Performance Slot :=
  match name with
  | none => answer notes
  | some v => do
    match ← lookup v with
    | some found => return ifList found notes
    | none =>
      match ← ofExcept v.asName with
      | none => return notes
      | some s => return ((← read).program.chords.find? s).or notes

def fillPlayChord (name notes duration : Slot) : Performance Command := do
  let notes ← fillChord name notes
  return .playChord name notes (← fillDuration duration)

def fillTimes (times : Slot) : Performance Slot := do
  match ← need "vezes" times with
  | .text s =>
    match ← lookup (.text s) with
    | some v => return some (.int (← ofExcept v.toInteger))
    | none => return times
  | _ => return times

def fillArguments : List Value → Performance (List Value)
  | [] => answer []
  | v :: rest => do
    let first := match ← lookup v with
      | some w => Value.text w.written
      | none => v
    return first :: (← fillArguments rest)

def notReplaced (arguments : Value) : Fault :=
  match arguments with
  | .record _ => .grownWhileRead
  | v => .notAssignable v.kind

def keepAll (otherwise : Fault) : List Value → Performance Unit
  | [] => answer ()
  | v :: rest => do
    if (← lookup v).isSome then fail otherwise
    keepAll otherwise rest

def fillCall (function arguments : Slot) : Performance Command := do
  match ← need "argumentos" arguments with
  | .list items => return .call function (some (.list (← fillArguments items)))
  | v =>
    keepAll (notReplaced v) (← ofExcept v.elements)
    return .call function (some v)

def needKind (v : Value) : Performance Unit := do
  let _ ← ofExcept (v.fieldOf "tipo")

mutual
def substitute : Command → Performance Command
  | .play note accidental duration => fillPlay note accidental duration
  | .playChord name notes duration => fillPlayChord name notes duration
  | .branch condition whenTrue whenFalse => do
    let whenTrue ← substituteBlock "bloco_verdadeiro" whenTrue
    let whenFalse ← substituteOptional "bloco_falso" whenFalse
    return .branch condition whenTrue whenFalse
  | .loop times body => do
    let times ← fillTimes times
    return .loop times (← substituteBlock "comandos" body)
  | .forEach name collection reversed body => do
    let body ← substituteBlock "comandos" body
    let _ ← need "colecao" collection
    return .forEach name collection reversed body
  | .call function arguments => fillCall function arguments
  | .marked further c => do return .marked further (← substitute c)
  | .other v => do
    needKind v
    return .other v
  | c => answer c

def substituteBlock (name : String) : Block → Performance Block
  | .missing => fail (.missingField name)
  | .value v => do
    let items ← ofExcept v.elements
    items.forM needKind
    return .commands (items.map .other)
  | .commands cs => do return .commands (← substituteAll cs)

def substituteOptional (name : String) : Block → Performance Block
  | .missing => fail (.missingField name)
  | .value .none => answer (.value .none)
  | .value v => do
    let items ← ofExcept v.elements
    items.forM needKind
    return .commands (items.map .other)
  | .commands cs => do return .commands (← substituteAll cs)

def substituteAll : List Command → Performance (List Command)
  | [] => answer []
  | c :: cs => do
    let c ← substitute c
    return c :: (← substituteAll cs)
end

end Melody.Performance
