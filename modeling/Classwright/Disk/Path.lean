/-!
# Paths

Paths are texts with a slash between their parts.
-/

namespace Classwright.Path

/-- What stands between slashes. -/
def segments : List Char → List (List Char)
  | [] => [[]]
  | c :: rest =>
    if c = '/' then [] :: segments rest
    else
      match segments rest with
      | [] => [[c]]
      | first :: others => (c :: first) :: others

/-- Whether a path does not start from the working directory. -/
def isAbsolute (path : String) : Bool := path.toList.head? = some '/'

/-- Whether a path ends in a slash. -/
def endsInSlash (path : String) : Bool := path.toList.getLast? = some '/'

/-- A path below another one. An absolute path stands for itself. -/
def join (directory name : String) : String :=
  if isAbsolute name then name
  else if directory.isEmpty ∨ endsInSlash directory then directory ++ name
  else directory ++ "/" ++ name

/-- The steps that a path takes from where it starts. -/
def parts (path : String) : List String :=
  ((segments path.toList).map String.ofList).filter (· ≠ "")

/-- The steps that lead elsewhere. -/
def names (path : String) : List String := (parts path).filter (· ≠ ".")

/-- Whether a path is another way to write the working directory. -/
def isHere (path : String) : Bool :=
  !path.isEmpty && !isAbsolute path && (parts path).all (· = ".")

/-- A path and those above it, the longest first. -/
def ancestors (path : String) : List String :=
  let root := if isAbsolute path then "/" else ""
  let names := names path
  path :: (List.range (names.length - 1)).reverse.map fun count =>
    root ++ "/".intercalate (names.take (count + 1))

/-- A file name without what follows its last point. A point at the start does not count. -/
def stem (name : String) : String :=
  let before := (name.toList.reverse.dropWhile (· ≠ '.')).drop 1
  if before.isEmpty then name else String.ofList before.reverse

/-- The name at the end of a path, without its extension. -/
def fileStem? (path : String) : Option String :=
  match (names path).getLast? with
  | some ".." => none
  | last => last.map stem

end Classwright.Path
