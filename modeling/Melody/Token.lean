/-!
# Tokens

The pieces of a program with their kinds and positions.
-/

set_option autoImplicit false

namespace Melody

inductive Token.Kind where
  | keyword
  | note
  | duration
  | instrument
  | number
  | identifier
  | operator
  | symbol
  | unknown
deriving DecidableEq, Repr

def Token.Kind.name : Token.Kind → String
  | keyword => "palavra_chave"
  | note => "nota_musical"
  | duration => "duracao"
  | instrument => "instrumento"
  | number => "numero"
  | identifier => "identificador"
  | operator => "operador"
  | symbol => "simbolo"
  | unknown => "desconhecido"

structure Token where
  kind : Token.Kind
  text : List Char
  line : Nat
  column : Nat
deriving DecidableEq, Repr

namespace Token

def value (t : Token) : String :=
  String.ofList t.text

def describe (t : Token) : String :=
  let kind := t.kind.name
  let value := t.value
  let line := t.line
  let column := t.column
  s!"Token({kind}, '{value}', {line}:{column})"

end Token

end Melody
