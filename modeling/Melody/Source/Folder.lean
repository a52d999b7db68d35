import Melody.Source.File
import Melody.Source.Path

/-!
# Folders

A folder says what each path leads to. In a folder that holds only files, a path is walked name by
name: single points stay, two points go up, and nothing is below a file.
-/

set_option autoImplicit false

namespace Melody.Source

abbrev Folder := List Char → File

def maxNameBytes : Nat := 255
def maxPathBytes : Nat := 4095

def byteCount (cs : List Char) : Nat :=
  (String.ofList cs).utf8ByteSize

inductive Place where
  | inside
  | outside
  | file (f : File)

def walk (files : List Char → Option File) : Place → List (List Char) → File
  | .file f, [] => f
  | _, [] => .directory
  | .file _, _ :: _ => .behindFile
  | place, name :: rest =>
    if name.isEmpty || name = ['.'] then walk files place rest
    else if name = ['.', '.'] then walk files .outside rest
    else if maxNameBytes < byteCount name then .nameTooLong
    else
      match place, files name with
      | .inside, some f => walk files (.file f) rest
      -- outside of the folder only the way up is known
      | _, _ => .absent

def Folder.ofFiles (files : List Char → Option File) : Folder := fun path =>
  if path.contains (Char.ofNat 0) then .unnameable
  else if path.isEmpty then .absent
  else if maxPathBytes < byteCount path then .nameTooLong
  else walk files (if path.head? = some '/' then .outside else .inside) (names path)

def Folder.holds (folder : Folder) (path : List Char) : Except Unreadable Bool :=
  match folder (tidy path) with
  | .absent | .behindFile | .unnameable => .ok false
  | .nameTooLong => .error .nameTooLong
  | _ => .ok true

end Melody.Source
