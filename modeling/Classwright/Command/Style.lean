/-!
# Styled text

Text for terminals that show colours. A style is switched on before a text and everything is
switched off after it. A text that switches everything off itself gets its style back there.
-/

namespace Classwright

/-- How a text looks. -/
inductive Style where
  | plain
  | bold
  | red
  | green
  | yellow
  | cyan
deriving DecidableEq, Repr

namespace Style

/-- What switches all styles off. -/
def reset : List Char := "\x1b[0m".toList

/-- What switches a style on. -/
def start : Style → String
  | plain => ""
  | bold => "\x1b[1m"
  | red => "\x1b[31m"
  | green => "\x1b[32m"
  | yellow => "\x1b[33m"
  | cyan => "\x1b[36m"

/-- Puts a text after every `reset` in another one. -/
def restart (text : List Char) : List Char → List Char
  | '\x1b' :: '[' :: '0' :: 'm' :: rest => reset ++ text ++ restart text rest
  | c :: rest => c :: restart text rest
  | [] => []

/-- A text in a style, where colours show. -/
def apply (style : Style) (colored : Bool) (text : String) : String :=
  if colored && style ≠ plain then
    style.start ++ String.ofList (restart style.start.toList text.toList) ++ String.ofList reset
  else text

end Style

/-- Blanks that fill a text up to a width. -/
def padding (width : Nat) (text : String) : String :=
  String.ofList (List.replicate (width - text.length) ' ')

end Classwright
