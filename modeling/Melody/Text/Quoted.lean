import Melody.Text.Char

/-!
# Quoted text

Messages quote text in apostrophes, or in quotation marks when the text holds an apostrophe
and no quotation mark. Backslashes, the chosen mark and characters that do not print are
escaped.
-/

set_option autoImplicit false

namespace Melody.Text.Quoted

def hexDigits (width n : Nat) : List Char :=
  let ds := Nat.toDigits 16 n
  List.replicate (width - ds.length) '0' ++ ds

def mark (cs : List Char) : Char :=
  if cs.contains '\'' && !cs.contains '"' then '"' else '\''

def encodeChar (quote c : Char) : List Char :=
  if c = quote || c = '\\' then ['\\', c]
  else if c = '\t' then ['\\', 't']
  else if c = '\n' then ['\\', 'n']
  else if c = '\r' then ['\\', 'r']
  else if isPrintable c then [c]
  else if c.toNat < 0x100 then '\\' :: 'x' :: hexDigits 2 c.toNat
  else if c.toNat < 0x10000 then '\\' :: 'u' :: hexDigits 4 c.toNat
  else '\\' :: 'U' :: hexDigits 8 c.toNat

def encode (cs : List Char) : List Char :=
  let q := mark cs
  q :: cs.flatMap (encodeChar q) ++ [q]

end Melody.Text.Quoted

namespace Melody.Text

def quote (s : String) : String :=
  String.ofList (Quoted.encode s.toList)

end Melody.Text
