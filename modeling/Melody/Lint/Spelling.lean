import Melody.Lint.Vocabulary
import Melody.Text.Recognise

/-!
# Misspelled words

A known misspelling that stands as a word of its own, in any case, is worth a warning.
-/

set_option autoImplicit false

namespace Melody.Lint

open Melody.Text

def startsWithWord (word cs : List Char) : Bool :=
  match dropForm? word cs with
  | some rest => !((rest.head?.map isWordChar).getD false)
  | none => false

def hasWord (word : List Char) : Bool → List Char → Bool
  | _, [] => false
  | inWord, c :: cs => (!inWord && startsWithWord word (c :: cs)) || hasWord word (isWordChar c) cs

def spellingWarnings (cs : List Char) : List String :=
  misspellings.filterMap fun (wrong, right) =>
    if hasWord wrong.toList false cs then
      some s!"Possível erro de digitação: '{wrong}'. Você quis dizer '{right}'?"
    else none

end Melody.Lint
