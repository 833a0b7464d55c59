/-!
# Shapes of properties

The shape of a property says what its values are made of. Every walk over values and every piece of
generated code follows the shape of a property, together with the way in which it is compared.
-/

namespace Classwright

/-- The values that hold no others. -/
inductive Primitive where
  | string
  | integer
  | number
  | boolean
  | uri
  | dateTime
  /-- Any value at all. -/
  | any
deriving DecidableEq, Repr, Inhabited

namespace Primitive

/-- The primitive that a keyword of a hint stands for. -/
def ofKeyword? : String → Option Primitive
  | "string" => some string
  | "integer" => some integer
  | "number" => some number
  | "boolean" => some boolean
  | "uri" => some uri
  | "date-time" => some dateTime
  | "object" => some any
  | "any" => some any
  | _ => none

/-- Whether a primitive is never `null` in the generated code. -/
def isValueType : Primitive → Bool
  | integer | number | boolean | dateTime => true
  | string | uri | any => false

end Primitive

/-- The type of a property. -/
inductive Shape where
  | scalar (primitive : Primitive)
  /-- A generated class, by its name. -/
  | ofClass (name : String)
  | array (element : Shape)
  /-- A map from strings. -/
  | map (element : Shape)
deriving DecidableEq, Repr, Inhabited

/-- What the outermost part of a shape is. -/
inductive ShapeKind where
  | scalar
  | schemaDefined
  | array
  | map
deriving DecidableEq, Repr, Inhabited

/-- How values of a property are compared and hashed. -/
inductive Comparison where
  | value
  /-- In order, item by item. -/
  | sequence (element : Comparison)
  /-- Key by key, in any order. -/
  | unordered (element : Comparison)
  /-- As the named class does. -/
  | structural (className : String)
  /-- As a comparer does that a hint names. -/
  | custom (comparer : String)
deriving DecidableEq, Repr, Inhabited

namespace Shape

/-- The shape of values about which nothing is known. -/
def untyped : Shape := scalar .any

/-- The number of arrays around the first shape that is none. -/
def arrayDepth : Shape → Nat
  | array element => element.arrayDepth + 1
  | _ => 0

/-- What the arrays and maps of a shape hold in the end. -/
def leaf : Shape → Shape
  | array element => element.leaf
  | map element => element.leaf
  | s => s

/-- Whether a shape holds values of a generated class. -/
def containsClass (s : Shape) : Bool :=
  match s.leaf with
  | ofClass _ => true
  | _ => false

/-- Whether values of a shape may be `null` in the generated code. -/
def isReferenceType : Shape → Bool
  | scalar p => !p.isValueType
  | _ => true

/-- The outermost part of a shape. -/
def kind : Shape → ShapeKind
  | scalar _ => .scalar
  | ofClass _ => .schemaDefined
  | array _ => .array
  | map _ => .map

/-- The comparison that goes with a shape. -/
def comparison : Shape → Comparison
  | scalar _ => .value
  | ofClass name => .structural name
  | array element => .sequence element.comparison
  | map element => .unordered element.comparison

/-- What an array or a map holds. Other shapes hold nothing that is known. -/
def element : Shape → Shape
  | array element => element
  | map element => element
  | _ => untyped

end Shape

end Classwright
