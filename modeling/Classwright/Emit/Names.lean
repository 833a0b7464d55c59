import Classwright.Code.Syntax
import Classwright.Shape
import Classwright.Text.Words

/-!
# Types and names in generated code

Properties are declared with interface types, and fresh containers are made with concrete ones.
Parameters are named after properties, and locals carry the number of the level that declares them.
-/

namespace Classwright.Emit

open Code

/-- The type of a primitive. -/
def primitiveType : Primitive → TypeRef
  | .string => .named "string"
  | .integer => .named "int"
  | .number => .named "double"
  | .boolean => .named "bool"
  | .uri => .named "Uri"
  | .dateTime => .named "DateTime"
  | .any => .named "object"

/-- The type with which a property or an element is declared. -/
def propertyType : Shape → TypeRef
  | .scalar p => primitiveType p
  | .ofClass name => .named name
  | .array element => .generic "IList" [propertyType element]
  | .map element => .generic "IDictionary" [.named "string", propertyType element]

/-- The type with which a fresh value is made. -/
def concreteType : Shape → TypeRef
  | .array element => .generic "List" [propertyType element]
  | .map element => .generic "Dictionary" [.named "string", propertyType element]
  | shape => propertyType shape

/-- The words that C# keeps for itself. -/
def reservedWords : List String := [
  "abstract", "as", "base", "bool", "break", "byte", "case", "catch", "char", "checked", "class",
  "const", "continue", "decimal", "default", "delegate", "do", "double", "else", "enum", "event",
  "explicit", "extern", "false", "finally", "fixed", "float", "for", "foreach", "goto", "if",
  "implicit", "in", "int", "interface", "internal", "is", "lock", "long", "namespace", "new",
  "null", "object", "operator", "out", "override", "params", "private", "protected", "public",
  "readonly", "ref", "return", "sbyte", "sealed", "short", "sizeof", "stackalloc", "static",
  "string", "struct", "switch", "this", "throw", "true", "try", "typeof", "uint", "ulong",
  "unchecked", "unsafe", "ushort", "using", "virtual", "void", "volatile", "while"]

/-- The name of the parameter for a property. A reserved word is marked. -/
def parameterName (propertyName : String) : String :=
  let name := Text.lowerCamel propertyName
  if reservedWords.contains name then "@" ++ name else name

/-- A parameter as documentation names it. -/
def documentedName (parameter : String) : String :=
  String.ofList (parameter.toList.dropWhile (· = '@'))

/-- A local of a level. Levels nest, so locals of different levels never have the same name. -/
def numbered (base : String) (level : Nat) : String := base ++ "_" ++ toString level

/-- Whether two references are the same. -/
def referenceEquals (a b : Expr) : Expr := .call (.ident "ReferenceEquals") [a, b]

/-- Whether two objects are equal, `null` included. -/
def objectEquals (a b : Expr) : Expr := .call (.member (.ident "Object") "Equals") [a, b]

/-- The exception for an argument that must not be `null`. -/
def argumentNull (name : String) : Expr :=
  .new (.named "ArgumentNullException") [.call (.ident "nameof") [.ident name]]

/-- A reference in documentation. -/
def see (name : String) : String := "<see cref=\"" ++ name ++ "\" />"

/-- `a.Count`. -/
def count (a : Expr) : Expr := .member a "Count"

end Classwright.Emit
