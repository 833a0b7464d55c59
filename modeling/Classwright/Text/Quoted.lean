import Classwright.Text.Visible

/-!
# Quoted text in messages

A text in a message stands in double quotes. Control characters and characters that do not show by
themselves are escaped, so that a reader can tell any two texts apart.
-/

namespace Classwright.Text

/-- A number in lowercase hexadecimal. -/
def hexadecimal (n : Nat) : List Char := Nat.toDigits 16 n

/-- A character between double quotes. The backslash and the quote are written after a
backslash. -/
def quoteChar (c : Char) : List Char :=
  if c = '\\' ∨ c = '"' then ['\\', c]
  else if c = '\x00' then ['\\', '0']
  else if c = '\t' then ['\\', 't']
  else if c = '\r' then ['\\', 'r']
  else if c = '\n' then ['\\', 'n']
  else if isVisible c then [c]
  else ['\\', 'u', '{'] ++ hexadecimal c.toNat ++ ['}']

/-- A text in double quotes. -/
def quoted (s : String) : String :=
  String.ofList ('"' :: s.toList.flatMap quoteChar ++ ['"'])

end Classwright.Text
