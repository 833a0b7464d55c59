import Classwright.Json.Printer
import Classwright.Schema.Basic

/-!
# Writing schemas

The JSON value of a schema: its fields in declaration order, without those that are absent or
empty. An empty list of enumerated values is kept, because it is not the same as none.
-/

namespace Classwright

/-- The keyword of a type as a value. -/
def SchemaType.toJson (t : SchemaType) : Json := .text t.keyword

/-- A choice of types as a value. -/
def TypeChoice.toJson : TypeChoice → Json
  | one t => t.toJson
  | many ts => .list (ts.map SchemaType.toJson)

namespace Schema

/-- A field that is written if it is present. -/
def optionalField (key : String) : Option Json → List (String × Json)
  | none => []
  | some v => [(key, v)]

/-- A field that is written unless it is empty. -/
def objectField (key : String) (fields : List (String × Json)) : List (String × Json) :=
  if fields.isEmpty then [] else [(key, .object fields)]

mutual

/-- The value of a schema. -/
def toJson : Schema → Json
  | ⟨title, description, type, properties, required, items, additional, definitions, reference,
      enumeration, format⟩ =>
    .object <|
      optionalField "title" (title.map .text) ++
      optionalField "description" (description.map .text) ++
      optionalField "type" (type.map TypeChoice.toJson) ++
      objectField "properties" (namedToJson properties) ++
      (if required.isEmpty then [] else [("required", .list (required.map .text))]) ++
      optionalField "items" (optionToJson items) ++
      optionalField "additionalProperties" (additionalToJson additional) ++
      objectField "definitions" (namedToJson definitions) ++
      optionalField "$ref" (reference.map .text) ++
      optionalField "enum" (enumeration.map .list) ++
      optionalField "format" (format.map .text)

/-- The value of a schema that may be absent. -/
def optionToJson : Option Schema → Option Json
  | none => none
  | some s => some (toJson s)

/-- The value of `additionalProperties`. -/
def additionalToJson : Option (Additional Schema) → Option Json
  | none => none
  | some (.flag b) => some (.bool b)
  | some (.schema s) => some (toJson s)

/-- The values of named schemas. -/
def namedToJson : List (String × Schema) → List (String × Json)
  | [] => []
  | (name, s) :: rest => (name, toJson s) :: namedToJson rest

end

/-- The text of a schema. -/
def render (s : Schema) : String := s.toJson.render

end Schema

end Classwright
