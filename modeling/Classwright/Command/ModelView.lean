import Classwright.Command.Style
import Classwright.Model.Basic
import Classwright.Text.Quoted

/-!
# The class model on display

Every class with its identifier, and below it a line for every property. A star marks the
properties that hold objects.
-/

namespace Classwright

/-- The name of a kind of shape. -/
def ShapeKind.name : ShapeKind → String
  | scalar => "Scalar"
  | schemaDefined => "SchemaDefined"
  | array => "Array"
  | map => "Map"

/-- The text of a comparison. -/
def Comparison.text : Comparison → String
  | value => "Value"
  | sequence element => "Sequence(" ++ element.text ++ ")"
  | unordered element => "Unordered(" ++ element.text ++ ")"
  | structural name => "Structural(" ++ Text.quoted name ++ ")"
  | custom name => "Custom(" ++ Text.quoted name ++ ")"

/-- The line of a property. -/
def Property.line (colored : Bool) (p : Property) : String :=
  let marker := if p.isVisitable then Style.cyan.apply colored "*" else " "
  "  " ++ marker ++ " " ++ p.name ++ padding 24 p.name ++ " " ++ p.kind.name ++
    " depth=" ++ toString p.arrayDepth ++ " " ++ p.comparison.text ++
    (if p.required then " required" else "") ++ "\n"

/-- The lines of a class. -/
def ClassModel.view (colored : Bool) (c : ClassModel) : String :=
  Style.bold.apply colored c.name ++ " (" ++ c.schemaId ++ ")\n" ++
    String.join (c.properties.map (Property.line colored))

/-- The lines of all classes. -/
def Registry.view (colored : Bool) (r : Registry) : String :=
  String.join (r.classes.map (ClassModel.view colored))

end Classwright
