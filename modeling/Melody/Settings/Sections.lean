import Melody.Text.Char
import Melody.Text.Words
import Melody.Value

/-!
# Settings files

A settings file consists of sections with options. A line that is indented deeper than the option
above it continues its value. Lines that start with `#` or `;` are comments. Sections and the
options of a section must not be repeated; only the section of defaults may be opened again.
-/

set_option autoImplicit false

namespace Melody.Settings

open Melody.Text

def defaultSection : String := "DEFAULT"

inductive Malformed where
  | missingHeader
  | badLine
  | repeatedSection
  | repeatedOption
deriving DecidableEq, Repr

abbrev Options := Table (List (List Char))

/-- What was read so far: the sections, the one that is open, the option that can be continued
with its indentation, and whether a line made no sense. -/
structure Reader where
  sections : Table Options := []
  current : Option String := none
  option : Option String := none
  indent : Nat := 0
  bad : Bool := false

def isComment (cs : List Char) : Bool :=
  cs.head? = some '#' || cs.head? = some ';'

def header? (cs : List Char) : Option (List Char) :=
  match cs with
  | '[' :: rest =>
    let name := ((rest.reverse.dropWhile (· != ']')).drop 1).reverse
    if name.isEmpty then none else some name
  | _ => none

def option? (cs : List Char) : Option (List Char × List Char) :=
  let name := cs.takeWhile fun c => c != '=' && c != ':'
  match cs.drop name.length with
  | [] => none
  | _ :: value => some (strip name, strip value)

namespace Reader

def addLine (line : List Char) (r : Reader) : Reader :=
  match r.current, r.option with
  | some name, some key =>
    let options := (r.sections.find? name).getD []
    let value := (options.find? key).getD []
    { r with sections := r.sections.bind name (options.bind key (value ++ [line])) }
  | _, _ => r

def openSection (name : String) (r : Reader) : Except Malformed Reader :=
  if name ≠ defaultSection ∧ r.sections.has name then .error .repeatedSection
  else
    let options := (r.sections.find? name).getD []
    .ok { r with
      sections := r.sections.bind name options, current := some name, option := none }

def addOption (current : String) (name value : List Char) (r : Reader) :
    Except Malformed Reader :=
  let key := lower (String.ofList name)
  let options := (r.sections.find? current).getD []
  if options.has key then .error .repeatedOption
  else
    .ok { r with
      sections := r.sections.bind current (options.bind key [value])
      option := if key = "" then none else some key
      bad := r.bad || name.isEmpty }

def addEntry (text : List Char) (r : Reader) : Except Malformed Reader :=
  match header? text, r.current with
  | some name, _ => r.openSection (String.ofList name)
  | none, none => .error .missingHeader
  | none, some current =>
    match option? text with
    | some (name, value) => r.addOption current name value
    | none => .ok { r with bad := true }

def step (r : Reader) (line : List Char) : Except Malformed Reader :=
  let text := strip line
  let indent := (line.takeWhile isBlank).length
  if text.isEmpty then .ok (r.addLine [])
  else if isComment text then .ok r
  else if r.option.isSome && r.indent < indent then .ok (r.addLine text)
  else { r with indent := indent }.addEntry text

end Reader

def joinLines (ls : List (List Char)) : String :=
  String.ofList ((join ['\n'] ls).reverse.dropWhile isBlank).reverse

def readSections (cs : List Char) : Except Malformed (Table (Table String)) := do
  let r ← (lines cs).foldlM Reader.step {}
  if r.bad then .error .badLine
  else
    return r.sections.map fun (name, options) =>
      (name, options.map fun (key, ls) => (key, joinLines ls))

end Melody.Settings
