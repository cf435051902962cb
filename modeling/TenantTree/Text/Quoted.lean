/-
  TenantTree.Text.Quoted — a text between double quotes, as a listing shows it.

  Quotes and backslashes are escaped, tab, return, newline and NUL have short escapes, and every
  other character that does not print on its own is written `\u{…}` in hexadecimal.
-/
import TenantTree.Text.Unprinted

namespace TenantTree.Text

/-- One character inside the quotes. -/
def quotedChar (c : Char) : List Char :=
  if c = '"' then ['\\', '"']
  else if c = '\\' then ['\\', '\\']
  else if c = '\t' then ['\\', 't']
  else if c = '\r' then ['\\', 'r']
  else if c = '\n' then ['\\', 'n']
  else if c = '\x00' then ['\\', '0']
  else if isUnprinted c then ['\\', 'u', '\x7b'] ++ Nat.toDigits 16 c.toNat ++ ['\x7d']
  else [c]

/-- A text in double quotes. -/
def quoted (s : String) : String :=
  String.ofList (['"'] ++ s.toList.flatMap quotedChar ++ ['"'])

end TenantTree.Text
