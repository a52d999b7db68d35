import Melody.Text.Words

/-!
# Paths

A path is a row of names with slashes between them. Its tidy form has no empty names and no single
points; two points stay, because the name before them may be a link.
-/

set_option autoImplicit false

namespace Melody.Source

open Melody.Text

def names (path : List Char) : List (List Char) :=
  splitOn '/' path

def rootMark : List Char → List Char
  | '/' :: '/' :: '/' :: _ => ['/']
  | '/' :: '/' :: _ => ['/', '/']
  | '/' :: _ => ['/']
  | _ => []

def tidyNames (path : List Char) : List Char :=
  join ['/'] ((names path).filter fun n => !n.isEmpty && n ≠ ['.'])

def tidy (path : List Char) : List Char :=
  match rootMark path ++ tidyNames path with
  | [] => ['.']
  | cs => cs

def pathBelow (folder path : List Char) : List Char :=
  match rootMark path, tidyNames path with
  | [], [] => folder
  | [], below => folder ++ '/' :: below
  | mark, below => mark ++ below

end Melody.Source
