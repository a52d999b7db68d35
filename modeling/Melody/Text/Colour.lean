/-!
# Coloured lines

Errors are shown in red on a terminal.
-/

set_option autoImplicit false

namespace Melody.Text

def red (line : String) : String :=
  "\x1b[91m" ++ line ++ "\x1b[0m"

end Melody.Text
