import Classwright.Json.Basic

/-!
# Schemas

The part of a JSON schema that decides which classes are generated and how their properties are
typed. Keywords that play no part are not kept.
-/

namespace Classwright

/-- The types that a schema can name. -/
inductive SchemaType where
  | null
  | boolean
  | integer
  | number
  | string
  | array
  | object
deriving DecidableEq, Repr, Inhabited

namespace SchemaType

/-- All types in declaration order. -/
def all : List SchemaType := [null, boolean, integer, number, string, array, object]

/-- The keyword of a type. -/
def keyword : SchemaType → String
  | null => "null"
  | boolean => "boolean"
  | integer => "integer"
  | number => "number"
  | string => "string"
  | array => "array"
  | object => "object"

/-- The type of a keyword. -/
def ofKeyword? (s : String) : Option SchemaType := all.find? (·.keyword == s)

end SchemaType

/-- The value of `type`: one type or a list of alternatives. -/
inductive TypeChoice where
  | one (type : SchemaType)
  | many (types : List SchemaType)
deriving DecidableEq, Repr

/-- The value of `additionalProperties`: a flag, or a schema for the values. -/
inductive Additional (σ : Type) where
  | flag (allowed : Bool)
  | schema (schema : σ)
deriving Repr

/-- A schema. -/
structure Schema where
  title : Option String := none
  description : Option String := none
  type : Option TypeChoice := none
  properties : List (String × Schema) := []
  required : List String := []
  items : Option Schema := none
  additionalProperties : Option (Additional Schema) := none
  definitions : List (String × Schema) := []
  reference : Option String := none
  enumeration : Option (List Json) := none
  format : Option String := none
deriving Repr, Inhabited

namespace Schema

/-- The type that a schema stands for: the type it names, or the first alternative that is not
`null`. -/
def safeType (s : Schema) : Option SchemaType :=
  match s.type with
  | some (.one t) => some t
  | some (.many ts) => ts.find? (· ≠ .null)
  | none => none

/-- Whether a property must be present. -/
def isRequired (s : Schema) (property : String) : Bool := s.required.contains property

/-- Whether a class is generated for a schema: it has properties, and its type does not say that
it is no object. -/
def isClass (s : Schema) : Bool :=
  match s.safeType with
  | none | some .object => !s.properties.isEmpty
  | some _ => false

end Schema

end Classwright
