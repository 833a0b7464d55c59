import Classwright.Json.Basic
import Classwright.Shape

/-!
# The class model

What is known about every generated class: its name, its base types, and its properties in the
order of the schema. What the passes ask for time and again is stored with the shape of a property, and
the names of the classes are stored with the classes.
-/

namespace Classwright

/-- A property of a generated class. -/
structure Property where
  /-- The name in the schema and in instances. -/
  jsonName : String
  /-- The name in the generated code. -/
  name : String
  shape : Shape
  /-- The outermost part of the shape. -/
  kind : ShapeKind
  /-- The number of arrays around the first shape that is none. -/
  arrayDepth : Nat
  /-- Whether a visitor has to go into the property, because it holds values of a generated class. -/
  isVisitable : Bool
  comparison : Comparison
  required : Bool
  description : Option String
  modifiers : List String
deriving DecidableEq, Repr, Inhabited

/-- A generated class. -/
structure ClassModel where
  /-- The identifier of the class in hints. -/
  schemaId : String
  name : String
  description : Option String
  baseTypes : List String
  properties : List Property
deriving DecidableEq, Repr, Inhabited

namespace ClassModel

/-- The property of a name in instances. -/
def property? (c : ClassModel) (jsonName : String) : Option Property :=
  c.properties.find? (·.jsonName == jsonName)

/-- The properties that a visitor has to go into. -/
def visitable (c : ClassModel) : List Property := c.properties.filter Property.isVisitable

end ClassModel

/-- The generated classes under their names, in the order of these. -/
structure Registry where
  entries : Fields ClassModel := []
  /-- The names of the classes. -/
  names : List String := []
deriving DecidableEq, Repr, Inhabited

namespace Registry

/-- The registry of classes under their names. -/
def ofEntries (entries : Fields ClassModel) : Registry where
  entries
  names := entries.keys

/-- The class of a name. -/
def get? (r : Registry) (name : String) : Option ClassModel := r.entries.get? name

/-- The classes, in the order of the names that they stand under. -/
def classes (r : Registry) : List ClassModel := r.entries.map Prod.snd

/-- The classes in the order of the stored names. -/
def listed (r : Registry) : List ClassModel := r.names.filterMap r.get?

end Registry

/-- Puts a class under a name, in the order of names. A class that stands there is replaced. -/
def insertClass (name : String) (c : ClassModel) : Fields ClassModel → Fields ClassModel
  | [] => [(name, c)]
  | (other, d) :: rest =>
    if name < other then (name, c) :: (other, d) :: rest
    else if other < name then (other, d) :: insertClass name c rest
    else (name, c) :: rest

end Classwright
