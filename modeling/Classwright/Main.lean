import Classwright.Command.Run

/-!
# The command line

Reads and writes real files, and prints what a run says.
-/

namespace Classwright

/-- The number of an error of the system, which some operations give with the opposite sign. -/
def errorNumber (code : UInt32) : UInt32 := if code < 0x80000000 then code else 0 - code

/-- Why the system refused an operation. -/
def DiskFault.ofError (e : IO.Error) : DiskFault :=
  match e with
  | .noFileOrDirectory .. => .notFound
  | .alreadyExists .. => .alreadyExists
  | .inappropriateType _ code _ =>
    match errorNumber code with
    | 20 => .notADirectory
    | 21 => .isADirectory
    | _ => .other (toString e)
  | .invalidArgument _ code _ =>
    if errorNumber code = 36 then .nameTooLong else .other (toString e)
  | e => .other (toString e)

/-- The result of an action on the file system. -/
def attempt {α : Type} (action : IO α) : IO (Except DiskFault α) := do
  try
    return .ok (← action)
  catch e =>
    return .error (.ofError e)

/-- The text of a file. -/
def readText (path : String) : IO (Except DiskFault String) := do
  match ← attempt (IO.FS.readBinFile path) with
  | .error fault => return .error fault
  | .ok bytes =>
    match String.fromUTF8? bytes with
    | some text => return .ok text
    | none => return .error .notText

/-- The real file system. -/
def systemDisk : Disk IO where
  read path := readText path
  write path text := attempt (IO.FS.writeFile path text)
  makeDirectory path := attempt (IO.FS.createDir path)
  isDirectory? path := do
    let place := (← IO.currentDir) / path
    if ← place.pathExists then return some (← place.isDir) else return none
  entries path := attempt do
    let found ← ((← IO.currentDir) / path).readDir
    found.toList.mapM fun entry => return (entry.fileName, ← entry.path.isDir)

/-- Whether a variable of the environment is set, and not to zero. -/
def environmentFlag? (name : String) : IO (Option Bool) := do
  return (← IO.getEnv name).map (· ≠ "0")

/-- Whether colours show: the environment decides, else the terminal. -/
def showsColors : IO Bool := do
  if (← environmentFlag? "CLICOLOR_FORCE") = some true then return true
  else if (← environmentFlag? "NO_COLOR").isSome then return false
  else if (← environmentFlag? "CLICOLOR").getD true then (← IO.getStdout).isTty
  else return false

end Classwright

open Classwright in
/-- Runs the arguments of the command line. -/
def main (arguments : List String) : IO UInt32 := do
  let outcome ← Run.run systemDisk (← showsColors) arguments
  outcome.console.warnings.forM fun warning => IO.eprintln ("WARN " ++ warning.message)
  IO.print outcome.console.out
  IO.eprint outcome.console.err
  return outcome.exit
