import Classwright.Command.Arguments
import Classwright.Text.Quoted

/-!
# Requests on display

A request is shown as nested records, one field a line.
-/

namespace Classwright

/-- A value on display. -/
inductive View where
  | atom (text : String)
  | record (name : String) (fields : List (String × View))
  /-- Several values between an opening and a closing text. -/
  | group (opening closing : String) (values : List View)
deriving Repr, Inhabited

namespace View

/-- Lines that follow a label on the first one and end in a comma, one level in. -/
def item (label : String) : List String → List String
  | [] => []
  | [line] => ["    " ++ label ++ line ++ ","]
  | line :: rest =>
    ("    " ++ label ++ line) :: rest.dropLast.map ("    " ++ ·) ++
      [("    " ++ rest.getLastD "") ++ ","]

mutual

/-- The lines of a value. -/
def lines : View → List String
  | atom text => [text]
  | record name fields => (name ++ " \x7b") :: fieldLines fields ++ ["\x7d"]
  | group opening closing values => opening :: valueLines values ++ [closing]

/-- The lines of labelled values. -/
def fieldLines : List (String × View) → List String
  | [] => []
  | (label, v) :: rest => item (label ++ ": ") v.lines ++ fieldLines rest

/-- The lines of values. -/
def valueLines : List View → List String
  | [] => []
  | v :: rest => item "" v.lines ++ valueLines rest

end

/-- A text that may be absent. -/
def optional : Option String → View
  | none => atom "None"
  | some s => group "Some(" ")" [atom (Text.quoted s)]

/-- A truth value. -/
def flag (b : Bool) : View := atom (if b then "true" else "false")

end View

/-- The inputs of a command on display. -/
def Inputs.view (i : Inputs) : View :=
  .record "InputSettings" [
    ("schema", .group "[" "]" (i.schemas.map fun s => .atom (Text.quoted s))),
    ("hints", .optional i.hints),
    ("lenient_hints", .flag i.lenientHints),
    ("settings", .optional i.settings),
    ("namespace", .optional i.namespaceName),
    ("root_class", .optional i.rootClass),
    ("schema_name", .optional i.schemaName)]

/-- A request on display. -/
def GenerateRequest.view (r : GenerateRequest) : View :=
  .record "CommandLineInterface" [
    ("cmd", .group "Generate(" ")" [
      .record "GenerateOut" [
        ("input_settings", r.inputs.view),
        ("out", .optional r.out),
        ("check", .flag r.check),
        ("no_op", .flag r.noOp)]])]

end Classwright
