import Classwright.Json.Printer
import Classwright.Text.Quoted

/-!
# Faults of a document

A fault is a place in a document and the cause for which reading stopped there. The wording of
every cause is in `Cause.message`.
-/

namespace Classwright.Json

/-- One step from a value to a part of it. -/
inductive Step where
  /-- To the value of a field. -/
  | key (name : String)
  /-- To an item of a list. -/
  | index (i : Nat)
  /-- To a place where a key was expected and none was found. -/
  | unnamed
deriving DecidableEq, Repr

/-- The steps from the document to one of its parts, last step first. -/
abbrev Path := List Step

/-- The text of one step; `first` says whether it is the first one. -/
def Step.render (first : Bool) : Step → String
  | .index i => "[" ++ toString i ++ "]"
  | .key name => if first then name else "." ++ name
  | .unnamed => if first then "?" else ".?"

/-- The text of a path. The document itself is a point. -/
def Path.render (path : Path) : String :=
  match path.reverse with
  | [] => "."
  | first :: rest => first.render true ++ String.join (rest.map (Step.render false))

/-- What stands at a place. -/
inductive Found where
  | null
  | boolean (value : Bool)
  | number (value : Number)
  | text (value : String)
  | list
  | object
deriving DecidableEq, Repr

/-- What a place calls for. -/
inductive Wanted where
  | text
  | boolean
  | list
  | object
  | record (name : String)
deriving DecidableEq, Repr

/-- The constructs that an early end of the text can cut off. -/
inductive Construct where
  | value
  | string
  | list
  | object
deriving DecidableEq, Repr

/-- Why a document cannot be read. -/
inductive Cause where
  | wrongType (found : Found) (wanted : Wanted)
  | duplicateField (name : String)
  | missingField (name : String)
  | unknownField (name : String) (known : List String)
  | noVariant (union : String)
  | tooFewItems (count : Nat) (record : String) (size : Nat)
  | tooManyItems (count : Nat)
  | endOfText (inside : Construct)
  | valueExpected
  | wordExpected
  | colonExpected
  | fieldSeparatorExpected
  | itemSeparatorExpected
  | keyExpected
  | trailingComma
  | trailingText
  | badNumber
  | numberTooLarge
  | badEscape
  | brokenSurrogatePair
  | loneSurrogate
  | controlCharacter
  | tooDeep
deriving DecidableEq, Repr

/-- What stands at a place, in words. -/
def Found.describe : Found → String
  | null => "null"
  | boolean b => "boolean `" ++ toString b ++ "`"
  | number (.integer n) => "integer `" ++ (Number.integer n).render ++ "`"
  | number (.double x) => "floating point `" ++ (Number.double x).render ++ "`"
  | text s => "string " ++ Text.quoted s
  | list => "sequence"
  | object => "map"

/-- What a place calls for, in words. -/
def Wanted.describe : Wanted → String
  | text => "a string"
  | boolean => "a boolean"
  | list => "a sequence"
  | object => "a map"
  | record name => "struct " ++ name

/-- A construct in words. -/
def Construct.describe : Construct → String
  | value => "a value"
  | string => "a string"
  | list => "a list"
  | object => "an object"

/-- The names of the fields that would have been accepted. -/
def alternatives : List String → String
  | [] => "there are no fields"
  | [a] => "expected `" ++ a ++ "`"
  | [a, b] => "expected `" ++ a ++ "` or `" ++ b ++ "`"
  | names => "expected one of " ++ ", ".intercalate (names.map fun name => "`" ++ name ++ "`")

/-- The wording of a cause. -/
def Cause.message : Cause → String
  | wrongType found wanted =>
    "invalid type: " ++ found.describe ++ ", expected " ++ wanted.describe
  | duplicateField name => "duplicate field `" ++ name ++ "`"
  | missingField name => "missing field `" ++ name ++ "`"
  | unknownField name known => "unknown field `" ++ name ++ "`, " ++ alternatives known
  | noVariant union => "data did not match any variant of untagged enum " ++ union
  | tooFewItems count record size =>
    "invalid length " ++ toString count ++ ", expected struct " ++ record ++ " with " ++
      toString size ++ (if size = 1 then " element" else " elements")
  | tooManyItems count =>
    "invalid length " ++ toString count ++ ", expected fewer elements in array"
  | endOfText inside => "EOF while parsing " ++ inside.describe
  | valueExpected => "expected value"
  | wordExpected => "expected ident"
  | colonExpected => "expected `:`"
  | fieldSeparatorExpected => "expected `,` or `\x7d`"
  | itemSeparatorExpected => "expected `,` or `]`"
  | keyExpected => "key must be a string"
  | trailingComma => "trailing comma"
  | trailingText => "trailing characters"
  | badNumber => "invalid number"
  | numberTooLarge => "number out of range"
  | badEscape => "invalid escape"
  | brokenSurrogatePair => "unexpected end of hex escape"
  | loneSurrogate => "lone leading surrogate in hex escape"
  | controlCharacter =>
    "control character (\\u0000-\\u001F) found while parsing a string"
  | tooDeep => "recursion limit exceeded"

/-- A cause and the place where it arose. -/
structure Fault where
  path : Path
  cause : Cause
deriving DecidableEq, Repr

/-- The wording of a fault. -/
def Fault.message (f : Fault) : String :=
  "at JSON path " ++ f.path.render ++ " → " ++ f.cause.message

end Classwright.Json
