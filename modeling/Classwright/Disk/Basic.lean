import Classwright.Disk.Path

/-!
# Disks

What a run needs of a file system, as a record of operations. A run is written once for every
disk: for the real one, and for a `FileTree` that only exists in memory.
-/

namespace Classwright

/-- Why an operation on a file fails. -/
inductive DiskFault where
  | notFound
  | alreadyExists
  | notADirectory
  | isADirectory
  | nameTooLong
  | zeroInName
  | notText
  /-- Any other reason, in the words of the system. -/
  | other (reason : String)
deriving DecidableEq, Repr

/-- The wording of a fault. -/
def DiskFault.message : DiskFault → String
  | notFound => "No such file or directory (os error 2)"
  | alreadyExists => "File exists (os error 17)"
  | notADirectory => "Not a directory (os error 20)"
  | isADirectory => "Is a directory (os error 21)"
  | nameTooLong => "File name too long (os error 36)"
  | zeroInName => "file name contained an unexpected NUL byte"
  | notText => "stream did not contain valid UTF-8"
  | other reason => reason

/-- The operations on files. -/
structure Disk (m : Type → Type) where
  /-- The text of a file. -/
  read (path : String) : m (Except DiskFault String)
  /-- Makes a file with a text, or replaces its text. -/
  write (path text : String) : m (Except DiskFault Unit)
  /-- Makes a directory in one that is there. -/
  makeDirectory (path : String) : m (Except DiskFault Unit)
  /-- Whether there is something at a path, and whether it is a directory. -/
  isDirectory? (path : String) : m (Option Bool)
  /-- The names in a directory, and whether each is a directory. -/
  entries (path : String) : m (Except DiskFault (List (String × Bool)))

namespace Disk

variable {m : Type → Type} [Monad m]

/-- Makes a directory, unless it is there. -/
def ensureDirectory (disk : Disk m) (path : String) : m (Except DiskFault Unit) := do
  match ← disk.makeDirectory path with
  | .error .alreadyExists =>
    return if (← disk.isDirectory? path) = some true then .ok () else .error .alreadyExists
  | result => return result

/-- Makes the first of some directories, where each is below the next one. Those further on are
only made where nothing is found without them. -/
def ensureAll (disk : Disk m) : List String → m (Except DiskFault Unit)
  | [] => return .ok ()
  | path :: above => do
    match ← disk.ensureDirectory path with
    | .error .notFound =>
      match ← disk.ensureAll above with
      | .ok () => disk.ensureDirectory path
      | .error fault => return .error fault
    | result => return result

/-- Makes a directory and all those above it, unless they are there. What was made before a fault
stays. -/
def createDirectories (disk : Disk m) (path : String) : m (Except DiskFault Unit) :=
  if path.isEmpty then return .ok () else disk.ensureAll (Path.ancestors path)

end Disk

end Classwright
