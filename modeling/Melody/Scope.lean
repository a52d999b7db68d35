import Melody.Value

/-!
# Scopes

The variables of a function or an iteration that runs. Their names are usually texts, but any
value that is neither a list nor a record can be one. Names are compared as values, so `1` and
`1.0` are the same name.
-/

set_option autoImplicit false

namespace Melody

abbrev Scope := List (Value × Value)

namespace Scope

def find? : Scope → Value → Option Value
  | [], _ => none
  | (key, v) :: rest, name => if key.same name then some v else find? rest name

def bind : Scope → Value → Value → Scope
  | [], name, v => [(name, v)]
  | (key, w) :: rest, name, v =>
    if key.same name then (key, v) :: rest else (key, w) :: bind rest name v

def bindTable (s : Scope) (entries : Table Value) : Scope :=
  entries.foldl (fun s e => s.bind (.text e.1) e.2) s

end Scope

end Melody
