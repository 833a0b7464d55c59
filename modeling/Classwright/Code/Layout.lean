/-!
# Layout of generated code

Code is first a list of marks: lines without indentation, and where blocks open and close. Setting
the marks gives every line four spaces for each level that is open at it.
-/

namespace Classwright.Code

/-- A piece of laid out code. -/
inductive Mark where
  /-- A line of text at the current level. -/
  | line (text : String)
  /-- An empty line. -/
  | blank
  /-- An opening brace on a line of its own, and a level that starts after it. -/
  | opening
  /-- The end of a level, and a closing brace on a line of its own. -/
  | closing
  /-- A level that starts without a brace. -/
  | indent
  /-- The end of a level without a brace. -/
  | dedent
deriving DecidableEq, Repr, Inhabited

namespace Mark

/-- A line at a level. -/
def lineAt (level : Nat) (text : String) : String :=
  String.ofList (List.replicate (4 * level) ' ') ++ text

/-- The level after a mark. -/
def next (level : Nat) : Mark → Nat
  | opening | indent => level + 1
  | closing | dedent => level - 1
  | line _ | blank => level

/-- The line of a mark, if it has one. -/
def text? (level : Nat) : Mark → Option String
  | line text => some (lineAt level text)
  | blank => some ""
  | opening => some (lineAt level "\x7b")
  | closing => some (lineAt (level - 1) "\x7d")
  | indent | dedent => none

/-- The lines of a list of marks from a level on. -/
def lines (level : Nat) : List Mark → List String
  | [] => []
  | m :: rest => (m.text? level).toList ++ lines (m.next level) rest

/-- The text of a list of marks: each line ends with a line feed. -/
def render (marks : List Mark) : String :=
  String.join ((lines 0 marks).map (· ++ "\n"))

end Mark

end Classwright.Code
