import Classwright.Disk.Basic
import Classwright.Glob.Pattern
import Classwright.Json.Order

/-!
# Searching for files

The paths that fit a pattern, a directory before what is in it, and names in the order of their
characters.
-/

namespace Classwright.Glob

/-- A path that was found. -/
structure Found where
  path : String
  isDirectory : Bool
deriving DecidableEq, Repr

/-- The working directory. -/
def Found.here : Found := ⟨".", true⟩

/-- What has a name in a directory. Paths in the working directory do not mention it. -/
def Found.child (dir : Found) (name : String) : String :=
  if Path.isHere dir.path then name else Path.join dir.path name

/-- A directory that cannot be read. -/
structure SearchFault where
  path : String
  fault : DiskFault
deriving DecidableEq, Repr

/-- The wording of a fault. -/
def SearchFault.message (f : SearchFault) : String :=
  "attempting to read `" ++ f.path ++ "` resulted in an error: " ++ f.fault.message

/-- A path has at most 4095 bytes, so directories do not nest deeper than this. -/
def maxNesting : Nat := 2048

variable {m : Type → Type} [Monad m]

/-- A search that may fail. -/
abbrev SearchT (m : Type → Type) := ExceptT SearchFault m

/-- What is in a directory. -/
def children (disk : Disk m) (dir : Found) : SearchT m (List Found) := do
  if dir.isDirectory then
    match ← disk.entries dir.path with
    | .ok entries =>
      return (Fields.sorted entries).map fun (name, isDirectory) => ⟨dir.child name, isDirectory⟩
    | .error fault => throw ⟨dir.path, fault⟩
  else return []

/-- What is at a path that may lead nowhere. -/
def visit (disk : Disk m) (path : String) : SearchT m Found := do
  return ⟨path, (← disk.isDirectory? path).getD false⟩

/-- The name at the end of a path. -/
def lastName (path : String) : String :=
  String.ofList (path.toList.reverse.takeWhile (· ≠ '/')).reverse

/-- Collects from everything below a directory. -/
def descend (disk : Disk m) (collect : Found → SearchT m (List String)) :
    Nat → Found → SearchT m (List String)
  | 0, _ => return []
  | nesting + 1, dir => do
    (← children disk dir).flatMapM fun child => do
      let here ← collect child
      return here ++ (← if child.isDirectory then descend disk collect nesting child else pure [])

/-- The entries of every directory for itself and the one above it, where tokens that start with a
point accept them. -/
def dotEntries (disk : Disk m) (tokens : List Token) (dir : Found) : SearchT m (List Found) :=
  if dir.isDirectory ∧ tokens.head? = some (.char '.') then
    (["..", "."].filter fun name => fits tokens name.toList).mapM fun name =>
      visit disk (Path.join dir.path name)
  else return []

/-- The paths that fit components, from a place on. -/
def expand (disk : Disk m) (onlyDirectories : Bool) :
    List Component → Found → SearchT m (List String)
  | [], place => return if onlyDirectories && !place.isDirectory then [] else [place.path]
  | .literal name :: rest, place => do
    let path := place.child name
    if name = "." ∨ name = ".." then
      if place.isDirectory then expand disk onlyDirectories rest (← visit disk path) else return []
    else
      match ← disk.isDirectory? path with
      | some isDirectory => expand disk onlyDirectories rest ⟨path, isDirectory⟩
      | none => return []
  | .named tokens :: rest, place => do
    let fitting := (← children disk place).filter fun child =>
      fits tokens (lastName child.path).toList
    ((← dotEntries disk tokens place) ++ fitting).flatMapM (expand disk onlyDirectories rest)
  | [.directories], place =>
    descend disk (fun child => return if child.isDirectory then [child.path] else []) maxNesting
      place
  | .directories :: next :: rest, place =>
    descend disk (fun child =>
      if next.accepts (lastName child.path) then expand disk onlyDirectories rest child
      else return []) maxNesting place

/-- The paths that fit a pattern. -/
def Pattern.search (disk : Disk m) (p : Pattern) : SearchT m (List String) :=
  expand disk p.onlyDirectories p.components (if p.absolute then ⟨"/", true⟩ else .here)

end Classwright.Glob
