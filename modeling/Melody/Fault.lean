import Melody.Number.Read
import Melody.Text.Quoted

/-!
# Faults

The causes for which reading or playing a program fails, and the sentence that reports each.
A program can also end early by asking for an exit code or because the listener interrupts it.
-/

set_option autoImplicit false

namespace Melody

inductive Fault where
  | unknownNote (note : String)
  | unknownAccidental (sign : String)
  | unknownDuration (name : String)
  | unknownChordKind (name : String)
  | badInteger (text : String)
  | integerTooLong (digits : Nat)
  | integerTooLongToWrite
  | badDecimal (text : String)
  | integerOfNan
  | integerOfInfinity
  | integerOverflow
  | quotientOverflow
  | powerOverflow
  | divisionByZero
  | integerDivisionByZero
  | itemOutOfRange
  | characterOutOfRange
  | notConvertible (kind : String)
  | notCountable (kind : String)
  | notText (kind operation : String)
  | notIterable (kind : String)
  | notSearchable (kind : String)
  | notAssignable (kind : String)
  | notIndexed (kind : String)
  | notMeasured (kind : String)
  | notHashable (kind : String)
  | notDecimal (kind : String)
  | notOperands (sign left right : String)
  | notOrdered (kind : String)
  | notRepeated
  | noProduct (left right : String)
  | missingField (name : String)
  | missingItem (place : Nat)
  | grownWhileRead
  | tooManyParts
  | emptySound
  | negativeSize
  | sizeMismatch (given wanted : List Nat)
  | shapesApart (left right : List Nat)
  | shapeGrown (kept product : List Nat)
  | irregular (shape : List Nat)
  | tooManyAxes
  | notNumbers
  | negativePause
deriving DecidableEq, Repr

namespace Fault

def durationNames : String :=
  "breve, semibreve, minima, seminima, colcheia, semicolcheia"

def chordKindNames : String :=
  "maior, menor, aumentado, diminuto, maior7, menor7, dominante7"

def quoteLimit : Nat := 200

def shapeText (separator : String) (shape : List Nat) : String :=
  let axes := String.intercalate separator (shape.map toString)
  if shape.length = 1 then s!"({axes},)" else s!"({axes})"

def message : Fault → String
  | unknownNote note =>
    s!"ERRO: Nota '{note}' não é válida. Notas válidas: do, re, mi, fa, sol, la, si " ++
      "(ou C, D, E, F, G, A, B) com oitavas opcionais (ex: do4, mi5)"
  | unknownAccidental sign =>
    s!"ERRO: Modificador '{sign}' não é válido. Modificadores válidos: # (sustenido) ou b (bemol)"
  | unknownDuration name =>
    s!"ERRO: Duração '{name}' não é válida. Durações válidas: {durationNames}"
  | unknownChordKind name =>
    s!"ERRO: Tipo de acorde '{name}' não é válido. Tipos válidos: {chordKindNames}"
  | badInteger text =>
    "invalid literal for int() with base 10: " ++
      String.ofList ((Text.Quoted.encode text.toList).take quoteLimit)
  | integerTooLong digits =>
    s!"Exceeds the limit (4300 digits) for integer string conversion: value has {digits} digits; " ++
      "use sys.set_int_max_str_digits() to increase the limit"
  | integerTooLongToWrite =>
    "Exceeds the limit (4300 digits) for integer string conversion; " ++
      "use sys.set_int_max_str_digits() to increase the limit"
  | badDecimal text => "could not convert string to float: " ++ Text.quote text
  | integerOfNan => "cannot convert float NaN to integer"
  | integerOfInfinity => "cannot convert float infinity to integer"
  | integerOverflow => "int too large to convert to float"
  | quotientOverflow => "integer division result too large for a float"
  | powerOverflow => "(34, 'Numerical result out of range')"
  | divisionByZero => "float division by zero"
  | integerDivisionByZero => "division by zero"
  | itemOutOfRange => "list index out of range"
  | characterOutOfRange => "string index out of range"
  | notConvertible kind =>
    s!"int() argument must be a string, a bytes-like object or a real number, not '{kind}'"
  | notCountable kind => s!"'{kind}' object cannot be interpreted as an integer"
  | notText kind operation => s!"'{kind}' object has no attribute '{operation}'"
  | notIterable kind => s!"'{kind}' object is not iterable"
  | notSearchable kind => s!"argument of type '{kind}' is not iterable"
  | notAssignable kind => s!"'{kind}' object does not support item assignment"
  | notIndexed kind =>
    if kind = "str" then "string indices must be integers, not 'str'"
    else if kind = "list" then "list indices must be integers or slices, not str"
    else s!"'{kind}' object is not subscriptable"
  | notMeasured kind => s!"object of type '{kind}' has no len()"
  | notHashable kind => s!"unhashable type: '{kind}'"
  | notDecimal kind => s!"float() argument must be a string or a real number, not '{kind}'"
  | notOperands sign left right =>
    s!"unsupported operand type(s) for {sign}: '{left}' and '{right}'"
  | notOrdered kind => s!"'<' not supported between instances of '{kind}' and 'int'"
  | notRepeated => "can't multiply sequence by non-int of type 'float'"
  | noProduct left right =>
    "ufunc 'multiply' did not contain a loop with signature matching types " ++
      s!"(dtype('{left}'), dtype('{right}')) -> None"
  | missingField name => Text.quote name
  | missingItem place => toString place
  | grownWhileRead => "dictionary changed size during iteration"
  | tooManyParts => "too many values to unpack (expected 2)"
  | emptySound => "zero-size array to reduction operation maximum which has no identity"
  | negativeSize => "negative dimensions are not allowed"
  | sizeMismatch given wanted =>
    let a := shapeText "," given
    let b := shapeText "," wanted
    s!"could not broadcast input array from shape {a} into shape {b}"
  | shapesApart left right =>
    let a := shapeText "," left
    let b := shapeText "," right
    s!"operands could not be broadcast together with shapes {a} {b} "
  | shapeGrown kept product =>
    let a := shapeText "," kept
    let b := shapeText "," product
    s!"non-broadcastable output operand with shape {a} doesn't match the broadcast shape {b}"
  | irregular shape =>
    let axes := shape.length
    let shown := shapeText ", " shape
    "setting an array element with a sequence. " ++
      s!"The requested array has an inhomogeneous shape after {axes} dimensions. " ++
      s!"The detected shape was {shown} + inhomogeneous part."
  | tooManyAxes =>
    "setting an array element with a sequence. " ++
      "The requested array would exceed the maximum number of dimension of 1."
  | notNumbers =>
    "Cannot cast ufunc 'add' output from dtype('O') to dtype('float64') " ++
      "with casting rule 'same_kind'"
  | negativePause => "sleep length must be non-negative"

/-- Faults in the value of an argument, as opposed to its kind, its size or its absence. Playing
reports these and ends the program with an exit code; the others stop it as they are. -/
def isBadValue : Fault → Bool
  | unknownNote _ | unknownAccidental _ | unknownDuration _ | unknownChordKind _ => true
  | badInteger _ | integerTooLong _ | integerTooLongToWrite | badDecimal _ | integerOfNan => true
  | tooManyParts | emptySound | negativeSize | negativePause => true
  | sizeMismatch _ _ | shapesApart _ _ | shapeGrown _ _ | irregular _ | tooManyAxes => true
  | _ => false

def ofIntegerError (text : List Char) : Number.IntegerError → Fault
  | .malformed => badInteger (String.ofList text)
  | .tooManyDigits n => integerTooLong n

end Fault

def parseInt (text : List Char) : Except Fault Int :=
  match Number.readInt text with
  | .ok n => .ok n
  | .error e => .error (Fault.ofIntegerError text e)

def parseFloat (text : List Char) : Except Fault Float :=
  match Number.readFloat? text with
  | some x => .ok x
  | none => .error (.badDecimal (String.ofList text))

/-- A regular result of two steps comes from a regular result of the first. -/
theorem bind_ok {α β : Type} {x : Except Fault α} {f : α → Except Fault β} {b : β}
    (h : x >>= f = .ok b) : ∃ a, x = .ok a ∧ f a = .ok b := by
  cases x with
  | error e => exact nomatch h
  | ok a => exact ⟨a, rfl, h⟩

/-- A fault of two steps comes from the first one or, after its regular result, from the second. -/
theorem bind_error {α β : Type} {x : Except Fault α} {f : α → Except Fault β} {e : Fault}
    (h : x >>= f = .error e) : x = .error e ∨ ∃ a, x = .ok a ∧ f a = .error e := by
  cases x with
  | error e' =>
    cases h
    exact .inl rfl
  | ok a => exact .inr ⟨a, rfl, h⟩

inductive Halt where
  | fault (f : Fault)
  | exit (code : Nat)
  | interrupted
  | tooDeep
  | stalled
deriving DecidableEq, Repr

end Melody
