/-!
# Lines and blanks

A line ends at a line feed, and a carriage return right before the line feed belongs to the end of
the line. Blanks are the characters of the Unicode property White_Space.
-/

namespace Classwright.Text

/-- Whether a character is a blank. -/
def isBlank (c : Char) : Bool :=
  let n := c.toNat
  (9 ≤ n && n ≤ 13) || n == 0x20 || n == 0x85 || n == 0xA0 || n == 0x1680 ||
    (0x2000 ≤ n && n ≤ 0x200A) || n == 0x2028 || n == 0x2029 || n == 0x202F || n == 0x205F ||
    n == 0x3000

/-- A line without the carriage return at its end. `reversed` holds its characters, last first. -/
def lineOf (reversed : List Char) : String :=
  match reversed with
  | '\r' :: line => String.ofList line.reverse
  | line => String.ofList line.reverse

/-- The lines of a text. `current` holds the characters of the line under way, last first. The
last line counts only if something stands on it. -/
def linesOf (current : List Char) : List Char → List String
  | [] => if current.isEmpty then [] else [String.ofList current.reverse]
  | '\n' :: rest => lineOf current :: linesOf [] rest
  | c :: rest => linesOf (c :: current) rest

/-- The lines of a text. -/
def lines (s : String) : List String := linesOf [] s.toList

/-- A text without the blanks at its end. -/
def trimEnd (s : String) : String :=
  String.ofList (s.toList.reverse.dropWhile isBlank).reverse

end Classwright.Text
