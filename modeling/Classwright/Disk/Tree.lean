import Classwright.Disk.Basic
import Classwright.Json.Basic

/-!
# File trees

A file system in memory, seen from the working directory. Above it, and at the root of absolute
paths, there are directories about which nothing else is known; they stand in the tree under the
names `..` and `/`.
-/

namespace Classwright

/-- A file with its text, or a directory with what is in it by name. -/
inductive FileTree where
  | file (text : String)
  | directory (entries : List (String × FileTree))
deriving Repr, Inhabited

/-- A place in a file tree: the names that lead there. -/
abbrev Place := List String

namespace FileTree

/-- A directory with nothing in it. -/
def empty : FileTree := directory []

/-- Whether this is a directory. -/
def isDirectory : FileTree → Bool
  | file _ => false
  | directory _ => true

/-- What a directory has under a name. -/
def child? : FileTree → String → Option FileTree
  | file _, _ => none
  | directory entries, name => Fields.get? entries name

/-- What is at a place. -/
def get? (t : FileTree) : Place → Option FileTree
  | [] => some t
  | name :: rest =>
    match t.child? name with
    | some below => below.get? rest
    | none => none

/-- Puts something at a place, in directories that are made where there is nothing. Below a file
there are no places. -/
def set (t : FileTree) (p : Place) (new : FileTree) : FileTree :=
  match p with
  | [] => new
  | name :: rest =>
    match t with
    | file text => file text
    | directory entries =>
      let below := (Fields.get? entries name).getD empty
      directory (Fields.insert entries name (below.set rest new))

/-! ### Paths -/

/-- The way down to a place: the names passed, the last one first, and what each of them led to. -/
abbrev Trail := List (String × FileTree)

/-- What a path leads to: a place, and what is there, if anything. -/
structure Target where
  place : Place
  found : Option FileTree

/-- The place at the end of a trail. -/
def Trail.place (trail : Trail) : Place := (trail.map Prod.fst).reverse

/-- What is at the end of a trail, which starts at the working directory. -/
def Trail.here (trail : Trail) (t : FileTree) : FileTree :=
  match trail with
  | [] => t
  | (_, last) :: _ => last

/-- Whether a trail only leads upwards. -/
def Trail.isAbove (trail : Trail) : Bool := trail.all (·.1 = "..")

/-- The trail one directory up. The root is above itself. -/
def Trail.up (trail : Trail) (t : FileTree) : Trail :=
  if trail.isAbove then ("..", ((trail.here t).child? "..").getD empty) :: trail
  else
    match trail with
    | [("/", _)] => trail
    | _ => trail.drop 1

/-- The largest number of bytes in a name. -/
def maxName : Nat := 255

/-- The largest number of bytes in a path. -/
def maxPath : Nat := 4095

/-- Follows the parts of a path. Everything on the way has to be a directory; at the end there may
be nothing. -/
def walk (t : FileTree) (trail : Trail) : List String → Except DiskFault Target
  | [] => .ok ⟨trail.place, some (trail.here t)⟩
  | name :: rest =>
    let here := trail.here t
    if !here.isDirectory then .error .notADirectory
    else if name = "." then t.walk trail rest
    else if name = ".." then t.walk (trail.up t) rest
    else if maxName < name.utf8ByteSize then .error .nameTooLong
    else
      match here.child? name with
      | some below => t.walk ((name, below) :: trail) rest
      | none =>
        if rest.isEmpty then .ok ⟨trail.place ++ [name], none⟩ else .error .notFound

/-- What a path leads to. -/
def locate (t : FileTree) (path : String) : Except DiskFault Target :=
  if path.toList.contains '\x00' then .error .zeroInName
  else if path.isEmpty then .error .notFound
  else if maxPath < path.utf8ByteSize then .error .nameTooLong
  else
    t.walk (if Path.isAbsolute path then [("/", (t.child? "/").getD empty)] else [])
      (Path.parts path)

/-- What there is at a path. A slash at its end asks for a directory. -/
def lookUp (t : FileTree) (path : String) : Except DiskFault FileTree := do
  match (← t.locate path).found with
  | none => .error .notFound
  | some (file text) => if Path.endsInSlash path then .error .notADirectory else .ok (file text)
  | some found => .ok found

/-! ### Operations -/

/-- The text of a file. -/
def read (t : FileTree) (path : String) : Except DiskFault String := do
  match ← t.lookUp path with
  | file text => .ok text
  | directory _ => .error .isADirectory

/-- Makes a file with a text, or replaces its text. -/
def write (t : FileTree) (path text : String) : Except DiskFault FileTree := do
  let target ← t.locate path
  match target.found with
  | some (directory _) => .error .isADirectory
  | _ =>
    if Path.endsInSlash path then .error .isADirectory else .ok (t.set target.place (file text))

/-- Makes a directory in one that is there. -/
def makeDirectory (t : FileTree) (path : String) : Except DiskFault FileTree := do
  let target ← t.locate path
  match target.found with
  | some _ => .error .alreadyExists
  | none => .ok (t.set target.place empty)

/-- Whether there is something at a path, and whether it is a directory. -/
def isDirectory? (t : FileTree) (path : String) : Option Bool :=
  match t.lookUp path with
  | .ok found => some found.isDirectory
  | .error _ => none

/-- Whether a name leads out of the working directory. -/
def isOutside (name : String) : Bool := name = ".." || name = "/"

/-- The names in a directory, and whether each is a directory. -/
def names (t : FileTree) (path : String) : Except DiskFault (List (String × Bool)) := do
  match ← t.lookUp path with
  | file _ => .error .notADirectory
  | directory entries =>
    .ok ((entries.filter fun e => !isOutside e.1).map fun (name, e) => (name, e.isDirectory))

/-! ### Whole trees -/

/-- A tree with the given files, in the directories that they need. -/
def ofFiles (files : Fields String) : FileTree :=
  files.foldl (fun t (path, text) => t.set (Path.names path) (file text)) empty

mutual

/-- The files of a tree, by their places. -/
def leaves (p : Place) : FileTree → List (Place × String)
  | file text => [(p, text)]
  | directory entries => leavesOf p entries

/-- The files among the entries of a directory. -/
def leavesOf (p : Place) : List (String × FileTree) → List (Place × String)
  | [] => []
  | (name, e) :: rest => leaves (p ++ [name]) e ++ leavesOf p rest

end

/-- The files below the working directory, by their paths. -/
def files (t : FileTree) : Fields String :=
  ((t.leaves []).filter fun (p, _) => !(p.head?.any isOutside)).map fun (p, text) =>
    ("/".intercalate p, text)

/-- Does an operation that changes the tree. A fault leaves it as it was. -/
def change (op : FileTree → Except DiskFault FileTree) : StateM FileTree (Except DiskFault Unit) :=
  fun t =>
    match op t with
    | .ok t' => (.ok (), t')
    | .error fault => (.error fault, t)

/-- The operations on the tree in the state. -/
def disk : Disk (StateM FileTree) where
  read path := fun t => (t.read path, t)
  write path text := change fun t => t.write path text
  makeDirectory path := change fun t => t.makeDirectory path
  isDirectory? path := fun t => (t.isDirectory? path, t)
  entries path := fun t => (t.names path, t)

end FileTree

end Classwright
