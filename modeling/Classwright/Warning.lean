/-!
# Warnings

What a run reports without failing.
-/

namespace Classwright

/-- Something a run passes over or treats in a way that may surprise. -/
inductive Warning where
  | droppedHint (schemaId reason : String)
  | inlineObject (schemaId property : String)
  | cyclicAlias (schemaId property definition : String)
  | unknownDefinition (schemaId property definition : String)
  | unknownHintTarget (schemaId : String)
  | reservedMethodName (className : String)
  | reservedTypeName (className : String)
deriving DecidableEq, Repr

namespace Warning

/-- The wording of a warning. -/
def text : Warning → String
  | droppedHint .. => "dropping hint entry"
  | inlineObject .. => "inline object schema is generated as an opaque map"
  | cyclicAlias .. => "cyclic alias definition; treated as untyped"
  | unknownDefinition .. => "reference to unknown definition"
  | unknownHintTarget .. => "hint targets an unknown schema identifier; ignored"
  | reservedMethodName .. => "class name collides with a visitor helper method"
  | reservedTypeName .. => "class name collides with a generated support type"

/-- What a warning is about. -/
def subjects : Warning → List (String × String)
  | droppedHint schemaId reason => [("schema_id", schemaId), ("reason", reason)]
  | inlineObject schemaId property => [("schema_id", schemaId), ("property", property)]
  | cyclicAlias schemaId property definition =>
    [("schema_id", schemaId), ("property", property), ("definition", definition)]
  | unknownDefinition schemaId property definition =>
    [("schema_id", schemaId), ("property", property), ("definition", definition)]
  | unknownHintTarget schemaId => [("schema_id", schemaId)]
  | reservedMethodName className => [("class", className)]
  | reservedTypeName className => [("class", className)]

/-- A warning on one line: its wording, then what it is about. -/
def message (w : Warning) : String :=
  w.text ++ String.join (w.subjects.map fun (key, value) => " " ++ key ++ "=" ++ value)

end Warning

end Classwright
