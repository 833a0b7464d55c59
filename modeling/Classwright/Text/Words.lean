import Classwright.Text.Alphanumeric
import Classwright.Text.LetterCase

/-!
# Words of a name

A name falls into words at every character that is neither letter nor digit, between a lowercase
and an uppercase letter, and before the last letter of a run of uppercase letters that a lowercase
letter follows. Joining the words again with a capital letter each gives the names of generated
types and members.
-/

namespace Classwright.Text

/-- The case of the last cased letter since the last word boundary. -/
inductive Mode where
  | boundary
  | lower
  | upper
deriving DecidableEq, Repr

/-- The mode after a letter that ends no word. -/
def Mode.after (mode : Mode) (c : Char) : Mode :=
  if isLowercase c then .lower else if isUppercase c then .upper else mode

/-- The words of a piece of letters and digits. `current` holds the letters of the word under way,
last first. -/
def wordsOfPiece (mode : Mode) (current : List Char) : List Char → List (List Char)
  | [] => if current.isEmpty then [] else [current.reverse]
  | [c] => [(c :: current).reverse]
  | c :: next :: rest =>
    let after := mode.after c
    if after = .lower ∧ isUppercase next then
      (c :: current).reverse :: wordsOfPiece .boundary [] (next :: rest)
    else if mode = .upper ∧ isUppercase c ∧ isLowercase next then
      current.reverse :: wordsOfPiece .boundary [c] (next :: rest)
    else
      wordsOfPiece after (c :: current) (next :: rest)

/-- The pieces of a text between the characters that are neither letter nor digit. -/
def pieces (current : List Char) : List Char → List (List Char)
  | [] => [current.reverse]
  | c :: rest =>
    if isAlphanumeric c then pieces (c :: current) rest
    else current.reverse :: pieces [] rest

/-- The words of a name. -/
def words (s : String) : List (List Char) :=
  (pieces [] s.toList).flatMap (wordsOfPiece .boundary [])

/-- Lowercase letters throughout. A capital sigma that ends the word becomes a final sigma. -/
def lowered : List Char → List Char
  | [] => []
  | ['Σ'] => ['ς']
  | c :: rest => toLowercase c ++ lowered rest

/-- A capital first letter, and lowercase letters after it. -/
def capitalized : List Char → List Char
  | [] => []
  | c :: rest => toUppercase c ++ lowered rest

/-- The words of a name, each with a capital, joined: `run_log` becomes `RunLog`. -/
def upperCamel (s : String) : String := String.ofList ((words s).flatMap capitalized)

/-- As `upperCamel`, with a lowercase first word: `run_log` becomes `runLog`. -/
def lowerCamel (s : String) : String :=
  match words s with
  | [] => ""
  | first :: rest => String.ofList (lowered first ++ rest.flatMap capitalized)

end Classwright.Text
