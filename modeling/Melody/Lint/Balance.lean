import Melody.Source.Comment
import Melody.Value

/-!
# Balance of delimiters

Braces and parentheses must occur equally often. The brackets of chords are also comparison
signs, so those next to another such sign do not count and a difference of one is allowed.
-/

set_option autoImplicit false

namespace Melody.Lint

open Melody.Text

def countBetween (p : Option Char → Char → Option Char → Bool) : Option Char → List Char → Nat
  | _, [] => 0
  | before, c :: cs =>
    (if p before c cs.head? then 1 else 0) + countBetween p (some c) cs

def isOneOf (signs : List Char) : Option Char → Bool
  | none => false
  | some c => signs.contains c

def opensChord (before : Option Char) (c : Char) (after : Option Char) : Bool :=
  c == '<' && !isOneOf ['<', '=', '-'] before && !isOneOf ['=', '<', '-'] after

def closesChord (before : Option Char) (c : Char) (after : Option Char) : Bool :=
  c == '>' && !isOneOf ['>', '='] before && !isOneOf ['=', '>', '-'] after

def imbalance (opened closed slack : Nat) (what sign : String) : List String :=
  let missing := opened - closed
  let extra := closed - opened
  if slack < missing then [s!"Erro de sintaxe: Faltam {missing} fechamentos de {what} '{sign}'"]
  else if slack < extra then
    [s!"Erro de sintaxe: Há {extra} fechamentos de {what} '{sign}' a mais"]
  else []

structure Delimiters where
  opened : Nat
  closed : Nat

def chordDelimiters (cs : List Char) : Delimiters :=
  ⟨countBetween opensChord none cs, countBetween closesChord none cs⟩

def balanceErrors (cs : List Char) : List String :=
  let chords := chordDelimiters cs
  imbalance (cs.count '{') (cs.count '}') 0 "chave" "\x7d" ++
    imbalance (cs.count '(') (cs.count ')') 0 "parêntese" ")" ++
    imbalance chords.opened chords.closed 1 "acordes" ">"

def showCopies (n : Nat) (text : String) : String :=
  (Value.list (List.replicate n (.text text))).written

def describeChordDelimiters (cs : List Char) : List String :=
  let d := chordDelimiters cs
  let opened := d.opened
  let closed := d.closed
  let opens := showCopies opened "<"
  let closes := showCopies closed ">"
  s!"Delimitadores de acordes: {opened} abertos, {closed} fechados" ::
    if opened = closed then []
    else [s!"Aberturas encontradas: {opens}", s!"Fechamentos encontrados: {closes}"]

end Melody.Lint
