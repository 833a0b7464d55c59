import Classwright.Json.Printer
import Classwright.Json.Reader
import Classwright.Text.Words

/-!
# Settings of a run

Every setting has a default, so a settings document names only those it changes. Fields that are
not settings are refused.
-/

namespace Classwright

/-- What a run can be told besides the schema and the hints. -/
structure Settings where
  namespaceName : String := "Generated"
  /-- The class of the root schema; by default its title decides. -/
  rootClassName : Option String := none
  /-- What the visitor is named after; by default the root class. -/
  schemaName : Option String := none
  kindEnumName : String := "SNodeKind"
  nodeInterfaceName : String := "ISNode"
  copyrightNotice : Option String := none
  generateEquality : Bool := true
  generateVisitor : Bool := true
deriving DecidableEq, Repr, Inhabited

/-- The settings by name. -/
inductive SettingsField where
  | namespaceName
  | rootClassName
  | schemaName
  | kindEnumName
  | nodeInterfaceName
  | copyrightNotice
  | generateEquality
  | generateVisitor
deriving DecidableEq, Repr

namespace Settings

open Json

/-- The settings in declaration order. -/
def record : RecordType SettingsField where
  name := "GeneratorSettings"
  fields := [
    ("namespaceName", .namespaceName), ("rootClassName", .rootClassName),
    ("schemaName", .schemaName), ("kindEnumName", .kindEnumName),
    ("nodeInterfaceName", .nodeInterfaceName), ("copyrightNotice", .copyrightNotice),
    ("generateEquality", .generateEquality), ("generateVisitor", .generateVisitor)]
  strict := true

/-- Reads one setting. -/
def assign : Assign SettingsField Settings := fun field path draft =>
  match field with
  | .namespaceName => (readText path).map fun x => { draft with namespaceName := x }
  | .rootClassName =>
    (readOptional path (readText path)).map fun x => { draft with rootClassName := x }
  | .schemaName => (readOptional path (readText path)).map fun x => { draft with schemaName := x }
  | .kindEnumName => (readText path).map fun x => { draft with kindEnumName := x }
  | .nodeInterfaceName => (readText path).map fun x => { draft with nodeInterfaceName := x }
  | .copyrightNotice =>
    (readOptional path (readText path)).map fun x => { draft with copyrightNotice := x }
  | .generateEquality => (readBool path).map fun x => { draft with generateEquality := x }
  | .generateVisitor => (readBool path).map fun x => { draft with generateVisitor := x }

/-- The settings in a document. -/
def ofText (s : String) : Except Fault Settings :=
  readDocument (readRecord record ({} : Settings) [] (some assign)) s

/-- An optional text as a value. -/
def optionalText : Option String → Json
  | some s => .text s
  | none => .null

/-- The value of settings, all fields included. -/
def toJson (s : Settings) : Json :=
  .object [
    ("namespaceName", .text s.namespaceName),
    ("rootClassName", optionalText s.rootClassName),
    ("schemaName", optionalText s.schemaName),
    ("kindEnumName", .text s.kindEnumName),
    ("nodeInterfaceName", .text s.nodeInterfaceName),
    ("copyrightNotice", optionalText s.copyrightNotice),
    ("generateEquality", .bool s.generateEquality),
    ("generateVisitor", .bool s.generateVisitor)]

/-- The text of settings. -/
def render (s : Settings) : String := s.toJson.render

/-- The name of the root class: the one that is set, else the title in camel case, else `Root`. -/
def rootClass (s : Settings) (title : Option String) : String :=
  match s.rootClassName, title with
  | some name, _ => name
  | none, some title =>
    let name := Text.upperCamel title
    if name.isEmpty then "Root" else name
  | none, none => "Root"

/-- The name of the visitor class of a run with the given root class. -/
def visitorClass (s : Settings) (rootClass : String) : String :=
  s.schemaName.getD rootClass ++ "RewritingVisitor"

end Settings

end Classwright
