import Melody.CommandLine.Tool

/-!
# The program

Reads the file that the arguments name, runs the program on it and shows the lines it prints.
There is no sound device, so sounds and sleeps are passed over.
-/

set_option autoImplicit false

namespace Melody

def findFile (path : List Char) : IO Source.File := do
  if path.contains (Char.ofNat 0) then return .unnameable
  try
    let content ← IO.FS.readBinFile (String.ofList path)
    return .bytes content.toList
  catch
    | .noFileOrDirectory _ _ _ => return .absent
    | .inappropriateType (some _) _ _ => return .behindFile
    | .invalidArgument _ _ _ => return .nameTooLong
    | _ => return .directory

def orderedPath (program : String) (arguments : List String) : Option String :=
  match CommandLine.readOrder program arguments with
  | .ok (.run path _) => some path
  | .ok (.lint path) => some path
  | _ => none

def orderedFolder (path : Option String) : IO Source.Folder := do
  match path with
  | none => return fun _ => .absent
  | some path =>
    let given := path.toList
    let file ← findFile given
    let tidied ← findFile (Source.tidy given)
    return fun p => if p = given then file else if p = Source.tidy given then tidied else .absent

def exitCode : CommandLine.Ending → UInt32
  | .returned => 0
  | .exited code => code.toUInt32
  | .broken _ => 1

def display (event : Event) : IO Unit :=
  match event with
  | .printed line => IO.println line
  | _ => return

end Melody

def main (arguments : List String) : IO UInt32 := do
  let program := "melodyscript"
  let folder ← Melody.orderedFolder (Melody.orderedPath program arguments)
  let finished := Melody.CommandLine.melodyTool program arguments folder none
  finished.events.forM Melody.display
  IO.eprint finished.errors
  if let .broken reason := finished.ending then
    IO.eprintln reason
  return Melody.exitCode finished.ending
