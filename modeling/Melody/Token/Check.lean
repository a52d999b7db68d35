import Melody.Text.Similar
import Melody.Token.Complaint
import Melody.Token.Scan

/-!
# Checking tokens

A program is examined token by token, and if no token is wrong by the shape of its `tocar`
commands and the balance of its braces and parentheses. Identifiers inside a melody are suspect
when they look like a command written without its blanks.
-/

set_option autoImplicit false

namespace Melody.Token

open Melody.Text

def lowered (t : Token) : List Char :=
  lowerText t.text

def isKeyword (t : Token) (word : String) : Bool :=
  t.kind = .keyword && t.lowered == word.toList

def isText (t : Token) (c : Char) : Bool :=
  t.text == [c]

/-- Whether a block opened after these tokens, the nearest first, belongs to a melody: one of
the four nearest is the keyword. The first token of the program is not looked at. -/
def opensMelody (before : List Token) : Bool :=
  (before.dropLast.take 4).any fun t => t.isKeyword "melodia"

/-- Whether the innermost block that is open after these tokens, the nearest first, is a
melody; `closed` counts the blocks closed on the way. -/
def inMelodyAfter : Nat → List Token → Bool
  | _, [] => false
  | closed, t :: before =>
    if t.isText '}' then inMelodyAfter (closed + 1) before
    else if t.isText '{' then
      match closed with
      | 0 => opensMelody before
      | closed + 1 => inMelodyAfter closed before
    else inMelodyAfter closed before

def inMelody (tokens : List Token) (position : Nat) : Bool :=
  inMelodyAfter 0 (tokens.take position).reverse

def knownMalformed : List (String × String) :=
  [("tocadasdasdasnima", "tocar do seminima"), ("tocaremininima", "tocar re seminima"),
   ("tocarmiseminima", "tocar mi seminima"), ("pausaseminima", "pausa seminima"),
   ("repetir2vezes", "repetir 2 vezes")]

def commandStems : List (String × String) :=
  [("toc", "tocar"), ("pau", "pausa"), ("rep", "repetir"), ("mel", "melodia"),
   ("ins", "instrumento")]

def sharedLetters (a b : List Char) : Nat :=
  b.countP fun c => a.contains c

def similarity (a b : List Char) : Except Fault Float :=
  if b.isEmpty then .error .integerDivisionByZero
  else .ok (Number.ofRatio false (sharedLetters a b) b.length)

def resemblesCommand (word command : List Char) : Bool :=
  match similarity word command with
  | .ok share => 0.3 < share
  | .error _ => false

def joinedPlay (notes : List String) (t : Token) : List Complaint :=
  match dropText? "toc".toList t.lowered with
  | none => []
  | some rest =>
    let duration := "seminima".toList
    let spelled := ((replace duration [] rest).filter (· != 'a')).filter (· != 'r')
    let note? :=
      if occurs duration rest then notes.find? fun n => occurs n.toList spelled else none
    match note? with
    | some note => [.joined t.line t.value note]
    | none => [.joinedUnclear t.line t.value]

def strayIdentifier (t : Token) (notes : List String := noteNames) : List Complaint :=
  if resemblesCommand t.lowered "tocar".toList && 5 < t.text.length then joinedPlay notes t
  else [.suspicious t.line t.value]

def followedBySemicolon (tokens : List Token) (position : Nat) : Bool :=
  match tokens[position + 1]? with
  | some t => t.isText ';'
  | none => false

def checkIdentifier (tokens : List Token) (position : Nat) (t : Token)
    (notes : List String := noteNames) : List Complaint :=
  match knownMalformed.lookup (String.ofList t.lowered) with
  | some fix => [.malformed t.line t.value fix]
  | none =>
    let stem? :=
      if 8 < t.text.length then commandStems.find? fun s => occurs s.1.toList t.lowered else none
    match stem? with
    | some stem =>
      if inMelody tokens position then [.resembles t.line t.value stem.2]
      else []
    | none =>
      if followedBySemicolon tokens position && inMelody tokens position then
        strayIdentifier t notes
      else []

def vocabulary : List String :=
  (keywords ++ noteNames ++ durationNames ++ instrumentNames).eraseDups

def checkToken (tokens : List Token) (position : Nat) (t : Token)
    (notes : List String := noteNames) : List Complaint :=
  match t.kind with
  | .unknown => [.invalid t.line t.value (closeWords 3 vocabulary t.lowered)]
  | .identifier => checkIdentifier tokens position t notes
  | _ => []

def checkTokensFrom (notes : List String) (tokens : List Token) : Nat → List Token → List Complaint
  | _, [] => []
  | position, t :: rest =>
    checkToken tokens position t notes ++ checkTokensFrom notes tokens (position + 1) rest

def checkTokens (tokens : List Token) (notes : List String := noteNames) : List Complaint :=
  checkTokensFrom notes tokens 0 tokens

def checkPlay (note duration close : Token) : List Complaint :=
  (if note.kind = .note then [] else [.noteExpected note.line note.value]) ++
  (if duration.kind = .duration then [] else [.durationExpected duration.line duration.value]) ++
  (if close.kind = .symbol && close.isText ';' then []
   else [.semicolonExpected close.line close.value])

def checkPlays : List Token → List Complaint
  | [] => []
  | t :: rest =>
    if t.isKeyword "tocar" then
      match rest with
      | note :: duration :: close :: rest =>
        checkPlay note duration close ++ checkPlays rest
      | rest => .incompletePlay t.line :: checkPlays rest
    else checkPlays rest

def checkBalanceFrom : List Token → List Token → List Token → List Complaint
  | braces, parens, [] =>
    braces.reverse.map (fun t => .openBrace t.line) ++
      parens.reverse.map fun t => .openParenthesis t.line
  | braces, parens, t :: rest =>
    if t.isText '{' then checkBalanceFrom (t :: braces) parens rest
    else if t.isText '}' then
      match braces with
      | [] => .strayBrace t.line :: checkBalanceFrom [] parens rest
      | _ :: braces => checkBalanceFrom braces parens rest
    else if t.isText '(' then checkBalanceFrom braces (t :: parens) rest
    else if t.isText ')' then
      match parens with
      | [] => .strayParenthesis t.line :: checkBalanceFrom braces [] rest
      | _ :: parens => checkBalanceFrom braces parens rest
    else checkBalanceFrom braces parens rest

def checkBalance (tokens : List Token) : List Complaint :=
  checkBalanceFrom [] [] tokens

def checkShape (tokens : List Token) : List Complaint :=
  checkPlays tokens ++ checkBalance tokens

/-- All complaints about a token list; the shape is examined only when every token is right. The
notes are a set, so the order in which they are tried may be any. -/
def check (tokens : List Token) (notes : List String := noteNames) : List Complaint :=
  match checkTokens tokens notes with
  | [] => checkShape tokens
  | complaints => complaints

def validate (cs : List Char) (notes : List String := noteNames) :
    Except Fault (List Complaint) :=
  return check (← scan cs) notes

end Melody.Token
