/-!
# Arguments of the command line

A command is a name and options. Options that take a value get it as the next argument, after `=`
or, for a letter, directly; only the schemas may be several. What looks like an option is never a
value.
-/

namespace Classwright

/-- What both commands read. Schemas are paths or patterns of paths. -/
structure Inputs where
  schemas : List String
  hints : Option String := none
  lenientHints : Bool := false
  settings : Option String := none
  namespaceName : Option String := none
  rootClass : Option String := none
  schemaName : Option String := none
deriving DecidableEq, Repr, Inhabited

/-- What to generate, and what to do with it. -/
structure GenerateRequest where
  inputs : Inputs
  /-- The directory of the files. Without one the texts are printed. -/
  out : Option String := none
  /-- Compares with the files in the directory and writes nothing. -/
  check : Bool := false
  /-- Shows the request and does nothing. -/
  noOp : Bool := false
deriving DecidableEq, Repr, Inhabited

/-- A command. -/
inductive Command where
  | generate (request : GenerateRequest)
  /-- Shows the class model. -/
  | model (inputs : Inputs)
deriving DecidableEq, Repr, Inhabited

/-- What is wrong with arguments. -/
inductive UsageFault where
  | missingCommand
  | unknownCommand (name : String)
  | unknownOption (argument : String)
  | unexpectedArgument (argument : String)
  | unexpectedValue (option : String)
  | missingValue (option : String)
  | repeated (option : String)
  | missingSchema
  | checkWithoutOut
deriving DecidableEq, Repr

/-- The wording of a fault. -/
def UsageFault.message : UsageFault → String
  | missingCommand => "error: a command is required, 'generate' or 'model'"
  | unknownCommand name => "error: there is no command '" ++ name ++ "'"
  | unknownOption argument => "error: there is no option '" ++ argument ++ "'"
  | unexpectedArgument argument => "error: the argument '" ++ argument ++ "' is not expected here"
  | unexpectedValue option => "error: the option '--" ++ option ++ "' takes no value"
  | missingValue option => "error: the option '--" ++ option ++ "' needs a value"
  | repeated option => "error: the option '--" ++ option ++ "' is given more than once"
  | missingSchema => "error: the option '--schema' is required"
  | checkWithoutOut => "error: the option '--check' requires '--out'"

namespace Arguments

/-! ### Options -/

/-- The options of both commands. -/
inductive Opt where
  | schema
  | hints
  | lenientHints
  | settings
  | namespaceName
  | rootClass
  | schemaName
  | out
  | check
  | noOp
deriving DecidableEq, Repr, Inhabited

namespace Opt

/-- The name of an option. -/
def name : Opt → String
  | schema => "schema"
  | hints => "hints"
  | lenientHints => "lenient-hints"
  | settings => "settings"
  | namespaceName => "namespace"
  | rootClass => "root-class"
  | schemaName => "schema-name"
  | out => "out"
  | check => "check"
  | noOp => "no-op"

/-- The letter of an option, if it has one. -/
def letter? : Opt → Option Char
  | schema => some 's'
  | out => some 'o'
  | _ => none

/-- Whether an option takes a value. -/
def takesValue : Opt → Bool
  | lenientHints | check | noOp => false
  | _ => true

/-- Whether an option may be given several times, each time with several values. -/
def isMany : Opt → Bool
  | schema => true
  | _ => false

/-- Whether the value of an option is a path, which is never empty. -/
def isPath : Opt → Bool
  | hints | settings | out => true
  | _ => false

/-- The options of both commands. -/
def shared : List Opt :=
  [schema, hints, lenientHints, settings, namespaceName, rootClass, schemaName]

/-- The options of the command that generates. -/
def ofGenerate : List Opt := shared ++ [out, check, noOp]

end Opt

/-! ### Single arguments -/

/-- What an argument looks like. -/
inductive Argument where
  /-- `--name` or `--name=value`. -/
  | long (name : String) (value : Option String)
  /-- `-x`, with what follows the letter. -/
  | short (letter : Char) (rest : List Char)
  /-- `--`, after which nothing is an option. -/
  | separator
  | plain (value : String)
deriving DecidableEq, Repr

/-- What an argument looks like. A single dash is a plain value. -/
def Argument.ofText (s : String) : Argument :=
  match s.toList with
  | ['-', '-'] => .separator
  | '-' :: '-' :: rest =>
    let name := String.ofList (rest.takeWhile (· ≠ '='))
    match rest.dropWhile (· ≠ '=') with
    | [] => .long name none
    | _ :: value => .long name (some (String.ofList value))
  | '-' :: letter :: rest => .short letter rest
  | _ => .plain s

/-- The value that directly follows a letter. -/
def attached? : List Char → Option String
  | [] => none
  | '=' :: value => some (String.ofList value)
  | value => some (String.ofList value)

/-! ### Reading options -/

/-- The options so far, and the option that still waits for values. -/
structure Reading where
  given : List (Opt × List String) := []
  pending : Option (Opt × List String) := none

namespace Reading

/-- Adds an option with its values. -/
def add (r : Reading) (opt : Opt) (values : List String) : Except UsageFault Reading :=
  if opt.takesValue && values.isEmpty || opt.isPath && values.contains "" then
    .error (.missingValue opt.name)
  else if !opt.isMany && r.given.any (·.1 = opt) then .error (.repeated opt.name)
  else .ok { r with given := r.given ++ [(opt, values)] }

/-- Adds the option that waits for values. -/
def settle (r : Reading) : Except UsageFault Reading :=
  match r.pending with
  | none => .ok r
  | some (opt, values) => ({ r with pending := none } : Reading).add opt values

/-- Takes an option. Without a value of its own, one that needs a value waits for it. -/
def option (r : Reading) (opt : Opt) (value : Option String) : Except UsageFault Reading := do
  let r ← r.settle
  match opt.takesValue, value with
  | true, some value => r.add opt [value]
  | true, none => .ok { r with pending := some (opt, []) }
  | false, some _ => .error (.unexpectedValue opt.name)
  | false, none => r.add opt []

/-- Takes a plain value. -/
def value (r : Reading) (s : String) : Except UsageFault Reading :=
  match r.pending with
  | none => .error (.unexpectedArgument s)
  | some (opt, values) =>
    let r := { r with pending := some (opt, values ++ [s]) }
    if opt.isMany then .ok r else r.settle

/-- The values of an option in order. -/
def values (r : Reading) (opt : Opt) : List String :=
  (r.given.filter (·.1 = opt)).flatMap Prod.snd

/-- The value of an option that has one. -/
def value? (r : Reading) (opt : Opt) : Option String := (r.values opt).head?

/-- Whether an option is given. -/
def has (r : Reading) (opt : Opt) : Bool := r.given.any (·.1 = opt)

end Reading

/-- What arguments ask for. -/
inductive Request where
  | help
  | command (c : Command)
deriving DecidableEq, Repr

/-- Reads the options of a command. `none` means that help is asked for. -/
def readOptions (options : List Opt) (r : Reading) :
    List String → Except UsageFault (Option Reading)
  | [] => r.settle.map some
  | argument :: rest =>
    match Argument.ofText argument with
    | .separator =>
      match rest with
      | [] => r.settle.map some
      | next :: _ => .error (.unexpectedArgument next)
    | .plain value => do readOptions options (← r.value value) rest
    | .long name value =>
      match options.find? (·.name = name), name, value with
      | some opt, _, value => do readOptions options (← r.option opt value) rest
      | none, "help", none => r.settle.map fun _ => none
      | none, _, _ => .error (.unknownOption argument)
    | .short letter value =>
      match options.find? (·.letter? = some letter) with
      | some opt => do readOptions options (← r.option opt (attached? value)) rest
      | none =>
        if letter = 'h' then r.settle.map fun _ => none else .error (.unknownOption argument)

/-- What both commands read, from their options. -/
def inputs (r : Reading) : Except UsageFault Inputs :=
  if r.has .schema then
    .ok {
      schemas := r.values .schema
      hints := r.value? .hints
      lenientHints := r.has .lenientHints
      settings := r.value? .settings
      namespaceName := r.value? .namespaceName
      rootClass := r.value? .rootClass
      schemaName := r.value? .schemaName }
  else .error .missingSchema

/-- The command that generates, from its options. -/
def generateRequest (r : Reading) : Except UsageFault GenerateRequest := do
  let inputs ← inputs r
  if r.has .check && !r.has .out then .error .checkWithoutOut
  else
    .ok {
      inputs
      out := r.value? .out
      check := r.has .check
      noOp := r.has .noOp }

/-- What arguments ask for. -/
def read : List String → Except UsageFault Request
  | [] => .error .missingCommand
  | "generate" :: rest => do
    match ← readOptions Opt.ofGenerate {} rest with
    | none => .ok .help
    | some r => .ok (.command (.generate (← generateRequest r)))
  | "model" :: rest => do
    match ← readOptions Opt.shared {} rest with
    | none => .ok .help
    | some r => .ok (.command (.model (← inputs r)))
  | "help" :: rest =>
    match rest with
    | [] => .ok .help
    | [name] =>
      if ["generate", "model", "help"].contains name then .ok .help
      else .error (.unknownCommand name)
    | name :: _ => .error (.unknownCommand name)
  | argument :: _ =>
    match Argument.ofText argument with
    | .long "help" none => .ok .help
    | .short 'h' _ => .ok .help
    | .plain name => .error (.unknownCommand name)
    | _ => .error (.unknownOption argument)

/-- A summary of the commands. -/
def helpText : String := String.intercalate "\n" [
  "compile a JSON schema into classes with value equality, deep copy and a rewriting visitor",
  "",
  "Commands:",
  "  generate  generate C# sources",
  "  model     print the classified class model (debug view)",
  "",
  "Options:",
  "  -s, --schema <SCHEMA>...         schema files, as paths or quoted patterns",
  "      --hints <HINTS>              hint document (JSON object: schema id → list of hints)",
  "      --lenient-hints              drop malformed hint entries with a warning",
  "      --settings <SETTINGS>        settings file (JSON); flags below override it",
  "      --namespace <NAMESPACE>      namespace of the generated code",
  "      --root-class <ROOT_CLASS>    name of the class generated for the root schema",
  "      --schema-name <SCHEMA_NAME>  prefix of the visitor class",
  "  -o, --out <OUT>                  output directory (stdout if omitted)",
  "      --check                      compare with the files in --out; fails on drift",
  "      --no-op                      show the request and do nothing",
  "  -h, --help                       Print help",
  ""]

end Arguments

end Classwright
