import Classwright.Command.Inspect
import Classwright.Command.ModelView
import Classwright.Disk.Basic
import Classwright.Disk.Path
import Classwright.Generate
import Classwright.Glob.Search
import Classwright.Hint.Document
import Classwright.Schema.Reader

/-!
# Running commands

A run reads all its inputs before it writes anything: the settings, the hints, then the schemas.
The schemas are then taken one by one, and a failure ends the run; what was printed or written
before it stays.
-/

namespace Classwright

/-- A failure: what was being done, and why it failed. -/
structure Report where
  doing : String
  cause : Option String := none
deriving DecidableEq, Repr

/-- Moves the lines after the first one in. -/
def indentAfterNewlines : List Char → List Char
  | [] => []
  | '\n' :: rest => '\n' :: ' ' :: ' ' :: ' ' :: ' ' :: indentAfterNewlines rest
  | c :: rest => c :: indentAfterNewlines rest

/-- The text of a failure. -/
def Report.render (r : Report) : String :=
  "Error: " ++ r.doing ++
    (match r.cause with
      | none => ""
      | some cause =>
        "\n\nCaused by:\n    " ++ String.ofList (indentAfterNewlines cause.toList)) ++
    "\n"

/-- What a run has said so far. -/
structure Console where
  out : String := ""
  err : String := ""
  warnings : List Warning := []
deriving DecidableEq, Repr, Inhabited

/-- Steps of a run: they may fail, and what they say before that stays. -/
abbrev RunT (m : Type → Type) := ExceptT Report (StateT Console m)

/-- How a run ended. -/
structure Outcome where
  exit : UInt32
  console : Console
deriving Repr

namespace Run

variable {m : Type → Type} [Monad m]

/-! ### Steps -/

/-- Prints a text. -/
def print (text : String) : RunT m Unit := modify fun c => { c with out := c.out ++ text }

/-- Prints a text on the error channel. -/
def printError (text : String) : RunT m Unit := modify fun c => { c with err := c.err ++ text }

/-- Notes warnings. -/
def warn (warnings : List Warning) : RunT m Unit :=
  modify fun c => { c with warnings := c.warnings ++ warnings }

/-- An operation on the disk. -/
def onDisk {α : Type} (op : m α) : RunT m α := ExceptT.lift (StateT.lift op)

/-- A result, or the failure of what was being done. -/
def within {ε α : Type} (doing : String) (message : ε → String) : Except ε α → RunT m α
  | .ok a => pure a
  | .error e => throw ⟨doing, some (message e)⟩

/-- The text of a file. -/
def readFile (disk : Disk m) (path : String) : RunT m String := do
  within ("failed to read " ++ path) DiskFault.message (← onDisk (disk.read path))

/-! ### Inputs -/

/-- The settings of a run: those of the document, then those of the command line. -/
def loadSettings (disk : Disk m) (inputs : Inputs) : RunT m Settings := do
  let settings ← match inputs.settings with
    | none => pure {}
    | some path => do
      let source ← readFile disk path
      within ("in " ++ path) (fun f => "invalid settings document: " ++ f.message)
        (Settings.ofText source)
  return { settings with
    namespaceName := inputs.namespaceName.getD settings.namespaceName
    rootClassName := inputs.rootClass.or settings.rootClassName
    schemaName := inputs.schemaName.or settings.schemaName }

/-- The hints of a run. -/
def loadHints (disk : Disk m) (inputs : Inputs) : RunT m HintTable := do
  match inputs.hints with
  | none => return {}
  | some path =>
    let source ← readFile disk path
    let report ← within ("in " ++ path) (fun f => "invalid hint document: " ++ f.message)
      (HintRegistry.standard.load source)
    if inputs.lenientHints then
      warn report.warnings
      return report.table
    else within ("in " ++ path) HintFault.report report.strict

/-- The paths that a path or pattern of the command line stands for. -/
def schemaPaths (disk : Disk m) (path : String) : RunT m (List String) := do
  if Glob.isPattern path then
    let resolving := "failed to resolve schema paths"
    let pattern ← within resolving Glob.PatternFault.message (Glob.Pattern.ofText path)
    match ← within resolving Glob.SearchFault.message (← onDisk (pattern.search disk).run) with
    | [] => throw ⟨resolving, some ("glob pattern matched no files: " ++ path)⟩
    | found => return found
  else return [path]

/-- A schema and where it was found. -/
structure LoadedSchema where
  path : String
  schema : Schema

/-- The schemas of a run. All paths are looked up before the first is read. -/
def loadSchemas (disk : Disk m) (inputs : Inputs) : RunT m (List LoadedSchema) := do
  let paths ← inputs.schemas.flatMapM (schemaPaths disk)
  paths.mapM fun path => do
    let source ← readFile disk path
    let schema ← within ("in " ++ path) (fun f => "invalid schema document: " ++ f.message)
      (Schema.ofText source)
    return ⟨path, schema⟩

/-! ### Files -/

/-- Writes files into a directory. -/
def writeFiles (disk : Disk m) (directory : String) (files : List RenderedFile) :
    RunT m Unit := do
  within ("failed to create " ++ directory) DiskFault.message
    (← onDisk (disk.createDirectories directory))
  files.forM fun file => do
    let path := Path.join directory file.fileName
    within ("failed to write " ++ path) DiskFault.message (← onDisk (disk.write path file.text))

/-- What a file is, compared with the text it should have. -/
inductive FileStatus where
  | upToDate
  | changed
  | missing
deriving DecidableEq, Repr

/-- A status in eight columns. -/
def FileStatus.text (colored : Bool) : FileStatus → String
  | upToDate => Style.green.apply colored "      ok"
  | changed => Style.red.apply colored " changed"
  | missing => Style.yellow.apply colored " missing"

/-- The status of a file. -/
def fileStatus (disk : Disk m) (path text : String) : RunT m FileStatus := do
  match ← onDisk (disk.read path) with
  | .ok found => return if found = text then .upToDate else .changed
  | .error .notFound => return .missing
  | .error fault => throw ⟨"failed to read " ++ path, some fault.message⟩

/-- The number of files in a directory that are not as they should be. -/
def checkFiles (disk : Disk m) (colored : Bool) (directory : String) :
    List RenderedFile → RunT m Nat
  | [] => return 0
  | file :: rest => do
    let path := Path.join directory file.fileName
    let status ← fileStatus disk path file.text
    printError (status.text colored ++ " " ++ path ++ "\n")
    let others ← checkFiles disk colored directory rest
    return others + if status = .upToDate then 0 else 1

/-! ### Commands -/

/-- The directory for the files of a schema. Several schemas get a directory each. -/
def directoryFor (out : String) (several : Bool) (path : String) : String :=
  if several then Path.join out ((Path.fileStem? path).getD "schema") else out

/-- Generates from one schema, and gives the number of files that are out of date. -/
def generateOne (disk : Disk m) (colored : Bool) (request : GenerateRequest) (settings : Settings)
    (hints : HintTable) (several : Bool) (loaded : LoadedSchema) : RunT m Nat := do
  let units ← within ("generating from " ++ loaded.path) ModelFault.report
    (generate loaded.schema hints settings)
  warn (generateWarnings loaded.schema hints settings)
  let files := renderAll settings units
  match request.out with
  | none =>
    print (String.join (files.map RenderedFile.text))
    return 0
  | some out =>
    let directory := directoryFor out several loaded.path
    if request.check then checkFiles disk colored directory files
    else
      writeFiles disk directory files
      return 0

/-- Generates from all schemas. -/
def runGenerate (disk : Disk m) (colored : Bool) (request : GenerateRequest) : RunT m Unit := do
  if request.noOp then
    printError (String.join (request.view.lines.map (· ++ "\n")))
  else
    let settings ← loadSettings disk request.inputs
    let hints ← loadHints disk request.inputs
    let schemas ← loadSchemas disk request.inputs
    let drifted ← schemas.foldlM (fun drifted loaded => do
      let more ← generateOne disk colored request settings hints (1 < schemas.length) loaded
      return drifted + more) 0
    if 0 < drifted then
      throw ⟨toString drifted ++ " generated file(s) out of date; rerun without --check", none⟩

/-- Shows the class models of all schemas. -/
def runModel (disk : Disk m) (colored : Bool) (inputs : Inputs) : RunT m Unit := do
  let settings ← loadSettings disk inputs
  let hints ← loadHints disk inputs
  let schemas ← loadSchemas disk inputs
  schemas.forM fun loaded => do
    let rootClass := settings.rootClass loaded.schema.title
    let registry ← within ("classifying " ++ loaded.path) ModelFault.report
      (Registry.build loaded.schema hints rootClass)
    warn (Registry.buildWarnings loaded.schema hints rootClass)
    print (registry.view colored)

/-- Runs a command. -/
def runCommand (disk : Disk m) (colored : Bool) : Command → RunT m Unit
  | .generate request => runGenerate disk colored request
  | .model inputs => runModel disk colored inputs

/-- Runs what arguments ask for. -/
def run (disk : Disk m) (colored : Bool) (arguments : List String) : m Outcome := do
  match Arguments.read arguments with
  | .error fault => return ⟨2, { err := fault.message ++ "\n" }⟩
  | .ok .help => return ⟨0, { out := Arguments.helpText }⟩
  | .ok (.command c) =>
    let (result, console) ← (runCommand disk colored c).run.run {}
    match result with
    | .ok _ => return ⟨0, console⟩
    | .error report => return ⟨1, { console with err := console.err ++ report.render }⟩

end Run

end Classwright
