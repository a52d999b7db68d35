import Melody.Number.Read
import Melody.Settings.Expansion
import Melody.Source.Path
import Melody.Text.Utf8

/-!
# Settings

The settings of the program come from a file with sections. The environment chooses the section;
what is not there is taken from the defaults.
-/

set_option autoImplicit false

namespace Melody

open Melody.Text

structure Settings where
  defaults : Table String
  sections : Table (Table String)

namespace Settings

def usual : Settings where
  defaults :=
    [("debug", "False"), ("volume", "0.7"), ("verbose", "False"),
     ("default_examples_dir", "examples")]
  sections := []

def ofText (cs : List Char) : Except Malformed Settings := do
  let sections ← readSections (unifyLineEnds cs)
  let own := (sections.find? defaultSection).getD []
  return ⟨Table.bindAll usual.defaults own, sections.filter fun s => s.1 ≠ defaultSection⟩

def environment (s : Settings) (name : Option String) : Table String :=
  match name with
  | none => []
  | some name => (s.sections.find? (upper name)).getD []

def raw? (s : Settings) (env : Option String) (key : String) : Option String :=
  ((s.environment env).find? key).or (s.defaults.find? key)

def get (s : Settings) (env : Option String) (key otherwise : String) :
    Except Unexpandable String :=
  match s.raw? env (lower key) with
  | none => .ok otherwise
  | some v => (expand (s.raw? env) depthLimit v.toList).map String.ofList

def onWords : List String := ["true", "1", "yes", "y"]

def isOn (s : Settings) (env : Option String) (key : String) : Except Unexpandable Bool := do
  return onWords.contains (lower (← s.get env key "False"))

def debug (s : Settings) (env : Option String) : Except Unexpandable Bool :=
  s.isOn env "DEBUG"

def verbose (s : Settings) (env : Option String) : Except Unexpandable Bool :=
  s.isOn env "VERBOSE"

def clampVolume (x : Float) : Float :=
  let x := if x < 1.0 then x else 1.0
  if 0.0 < x then x else 0.0

def volume (s : Settings) (env : Option String) : Except Unexpandable Float := do
  let text ← s.get env "VOLUME" "0.7"
  return match Number.readFloat? text.toList with
    | some x => clampVolume x
    | none => 0.7

def examplesFolder (s : Settings) (env : Option String) (root : String) :
    Except Unexpandable String := do
  let path ← s.get env "DEFAULT_EXAMPLES_DIR" "examples"
  return String.ofList (Source.pathBelow root.toList path.toList)

end Settings

end Melody
