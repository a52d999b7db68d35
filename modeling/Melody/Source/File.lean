import Melody.Text.Quoted
import Melody.Text.Utf8

/-!
# Files

What is found at a path: bytes, a text, a directory, or nothing, and why the path leads nowhere.
Reading gives the text or the reason why there is none.
-/

set_option autoImplicit false

namespace Melody.Source

inductive File where
  | absent
  | directory
  | behindFile
  | nameTooLong
  | unnameable
  | bytes (content : List UInt8)
  | text (content : List Char)

inductive Unreadable where
  | absent
  | directory
  | behindFile
  | nameTooLong
  | unnameable
  | malformed (m : Text.Utf8.Malformed)

def File.read : File → Except Unreadable (List Char)
  | absent => .error .absent
  | directory => .error .directory
  | behindFile => .error .behindFile
  | nameTooLong => .error .nameTooLong
  | unnameable => .error .unnameable
  | bytes content =>
    match Text.Utf8.decode content with
    | .ok cs => .ok (Text.unifyLineEnds cs)
    | .error m => .error (.malformed m)
  | text content => .ok (Text.unifyLineEnds content)

def Unreadable.message (path : String) : Unreadable → String
  | absent => "[Errno 2] No such file or directory: " ++ Text.quote path
  | directory => "[Errno 21] Is a directory: " ++ Text.quote path
  | behindFile => "[Errno 20] Not a directory: " ++ Text.quote path
  | nameTooLong => "[Errno 36] File name too long: " ++ Text.quote path
  | unnameable => "embedded null byte"
  | malformed m => m.message

end Melody.Source
