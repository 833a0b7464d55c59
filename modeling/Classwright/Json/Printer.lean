import Classwright.Json.Basic
import Classwright.Number.Decimal

/-!
# JSON text

The compact text of a value: no blanks, fields in order, and as few escapes as the format allows.
Texts are built as lists of characters in front of what follows, so that writing is linear and
reading can be stated of `print v rest`.
-/

namespace Classwright

/-- Doubles from `10 ^ -5` up to `10 ^ 16` are written with a point, the others with an exponent. -/
def Number.layout : Decimal.Layout := ⟨fun point => -4 ≤ point && point ≤ 16⟩

/-- The text of a number. -/
def Number.render : Number → String
  | integer n => toString n
  | double x => Number.layout.render x

namespace Json

/-- A lowercase hexadecimal digit. -/
def hexDigit (n : Nat) : Char := Nat.digitChar (n % 16)

/-- A character inside a string. -/
def printChar (c : Char) : List Char :=
  match c with
  | '"' => ['\\', '"']
  | '\\' => ['\\', '\\']
  | '\x08' => ['\\', 'b']
  | '\x0c' => ['\\', 'f']
  | '\n' => ['\\', 'n']
  | '\r' => ['\\', 'r']
  | '\t' => ['\\', 't']
  | c =>
    if c.toNat < 0x20 then ['\\', 'u', '0', '0', hexDigit (c.toNat / 16), hexDigit c.toNat]
    else [c]

/-- A string in quotes. -/
def printString (s : String) (rest : List Char) : List Char :=
  '"' :: s.toList.foldr (fun c tail => printChar c ++ tail) ('"' :: rest)

mutual

/-- The text of a value, followed by `rest`. -/
def print : Json → List Char → List Char
  | null, rest => 'n' :: 'u' :: 'l' :: 'l' :: rest
  | bool true, rest => 't' :: 'r' :: 'u' :: 'e' :: rest
  | bool false, rest => 'f' :: 'a' :: 'l' :: 's' :: 'e' :: rest
  | number n, rest => n.render.toList ++ rest
  | text s, rest => printString s rest
  | list items, rest => '[' :: printItems items true (']' :: rest)
  | object fields, rest => '{' :: printFields fields true ('}' :: rest)

/-- Items separated by commas. -/
def printItems : List Json → Bool → List Char → List Char
  | [], _, rest => rest
  | v :: items, first, rest =>
    if first then print v (printItems items false rest)
    else ',' :: print v (printItems items false rest)

/-- Fields separated by commas. -/
def printFields : List (String × Json) → Bool → List Char → List Char
  | [], _, rest => rest
  | (key, v) :: fields, first, rest =>
    let field := printString key (':' :: print v (printFields fields false rest))
    if first then field else ',' :: field

end

/-- The compact text of a value. -/
def render (v : Json) : String := String.ofList (print v [])

end Json

end Classwright
