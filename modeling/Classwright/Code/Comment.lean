import Classwright.Code.Syntax
import Classwright.Text.Lines

/-!
# Comments of generated code

Documentation comments are lines of markup after `///`, and the notice at the head of a file is
lines after `//`. Blanks at the end of a line are dropped.
-/

namespace Classwright.Code

/-- A character of free text as markup. -/
def escapeMarkupChar : Char → List Char
  | '&' => ['&', 'a', 'm', 'p', ';']
  | '<' => ['&', 'l', 't', ';']
  | '>' => ['&', 'g', 't', ';']
  | c => [c]

/-- Free text as markup. -/
def escapeMarkup (s : String) : String := String.ofList (s.toList.flatMap escapeMarkupChar)

/-- A line of text after a comment sign. -/
def commentLine (sign line : String) : String :=
  let line := Text.trimEnd line
  if line.isEmpty then sign else sign ++ " " ++ line

/-- The lines of an element of markup. -/
def elementLines (first text last : String) : List String :=
  ["/// " ++ first] ++ (Text.lines text).map (commentLine "///") ++ ["/// " ++ last]

/-- The lines of a documentation comment. -/
def DocComment.lines (d : DocComment) : List String :=
  elementLines "<summary>" d.summary "</summary>" ++
    d.params.flatMap (fun (name, text) =>
      elementLines ("<param name=\"" ++ name ++ "\">") text "</param>") ++
    (match d.returns with
      | some text => elementLines "<returns>" text "</returns>"
      | none => []) ++
    d.exceptions.flatMap (fun (type, text) =>
      elementLines ("<exception cref=\"" ++ type ++ "\">") text "</exception>")

/-- The lines of a notice at the head of a file. -/
def headerLines (s : String) : List String := (Text.lines s).map (commentLine "//")

end Classwright.Code
