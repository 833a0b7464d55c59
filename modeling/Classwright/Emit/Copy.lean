import Classwright.Code.Comment
import Classwright.Emit.Names
import Classwright.Model.Basic
import Classwright.Settings

/-!
# Constructors and copies

Every class has its properties, a constructor for nothing, one for all properties, and one that
copies. All but the first go through `Init`, which copies containers level by level and objects by
their own constructors.
-/

namespace Classwright.Emit

open Code

/-- Statements that hand a deep copy of `source` to `sink`. With `keepNull` a `null` is handed on,
without it nothing is. -/
def copyStatements (source : Expr) (shape : Shape) (level : Nat) (keepNull : Bool)
    (sink : Expr → Stmt) : List Stmt :=
  let guarded (copied : List Stmt) : List Stmt :=
    if keepNull then [.ifElse source.isNull [sink .null] copied]
    else [.ifThen source.isNotNull copied]
  let destination := numbered "destination" level
  let value := numbered "value" level
  let rebuilt (body : List Stmt) : List Stmt :=
    [.var destination (.new (concreteType shape) []),
      .forEach value none source body,
      sink (.ident destination)]
  match shape with
  | .scalar _ => [sink source]
  | .ofClass name => guarded [sink (.new (.named name) [source])]
  | .array element =>
    guarded <| rebuilt <| copyStatements (.ident value) element (level + 1) true fun e =>
      .expr (.call (.member (.ident destination) "Add") [e])
  | .map element =>
    guarded <| rebuilt <|
      copyStatements (.member (.ident value) "Value") element (level + 1) true fun e =>
        .assign (.index (.ident destination) (.member (.ident value) "Key")) e

/-- The property that says which class an object has. -/
def kindProperty (settings : Settings) (c : ClassModel) : PropertyDecl where
  name := settings.kindEnumName
  type := .named settings.kindEnumName
  modifiers := ["public"]
  body := .getter (.member (.ident settings.kindEnumName) c.name)
  doc := some {
    summary := "Gets a value indicating the type of object implementing " ++
      see settings.nodeInterfaceName ++ "." }

/-- The declaration of a property. -/
def storedProperty (p : Property) : PropertyDecl where
  name := p.name
  type := propertyType p.shape
  modifiers := p.modifiers
  body := .auto
  doc := p.description.map fun text => { summary := escapeMarkup text }

/-- The parameters for all properties of a class. -/
def propertyParams (c : ClassModel) : List Param :=
  c.properties.map fun p => ⟨parameterName p.name, propertyType p.shape⟩

/-- A call of `Init`. -/
def initCall (arguments : List Expr) : Stmt := .expr (.call (.ident "Init") arguments)

/-- The constructor for nothing. -/
def defaultConstructor (c : ClassModel) : ConstructorDecl where
  modifiers := ["public"]
  doc := some { summary := "Initializes a new instance of the " ++ see c.name ++ " class." }

/-- The constructor for all properties. -/
def fullConstructor (c : ClassModel) : ConstructorDecl where
  modifiers := ["public"]
  params := propertyParams c
  body := [initCall ((propertyParams c).map fun p => .ident p.name)]
  doc := some {
    summary :=
      "Initializes a new instance of the " ++ see c.name ++ " class from the supplied values."
    params := c.properties.map fun p =>
      (documentedName (parameterName p.name),
        "An initialization value for the " ++ see ("P:" ++ p.name) ++ " property.") }

/-- The constructor that copies. -/
def copyConstructor (c : ClassModel) : ConstructorDecl where
  modifiers := ["public"]
  params := [⟨"other", .named c.name⟩]
  body := [
    .ifThen (Expr.ident "other").isNull [.raise (argumentNull "other")],
    initCall (c.properties.map fun p => .member (.ident "other") p.name)]
  doc := some {
    summary :=
      "Initializes a new instance of the " ++ see c.name ++ " class from the specified instance."
    params := [("other", "The instance from which the new instance is to be initialized.")]
    exceptions := [("ArgumentNullException", "Thrown if <paramref name=\"other\" /> is null.")] }

/-- The methods that copy an object. -/
def deepCloneMethods (settings : Settings) (c : ClassModel) : List MethodDecl :=
  let node : TypeRef := .named settings.nodeInterfaceName
  let core : Expr := .call (.ident "DeepCloneCore") []
  [ { name := settings.nodeInterfaceName ++ ".DeepClone"
      returns := some node
      body := some [.ret core] },
    { name := "DeepClone"
      modifiers := ["public"]
      returns := some (.named c.name)
      body := some [.ret (.cast (.named c.name) core)]
      doc := some { summary := "Creates a deep copy of this instance." } },
    { name := "DeepCloneCore"
      modifiers := ["private"]
      returns := some node
      body := some [.ret (.new (.named c.name) [.this])] }]

/-- `Init`. -/
def initMethod (c : ClassModel) : MethodDecl where
  name := "Init"
  modifiers := ["private"]
  params := propertyParams c
  body := some <| c.properties.flatMap fun p =>
    copyStatements (.ident (parameterName p.name)) p.shape 0 false fun value =>
      .assign (.ident p.name) value

/-- The members of a class besides those for equality. -/
def classMembers (settings : Settings) (c : ClassModel) : List Member :=
  .property (kindProperty settings c) :: c.properties.map (fun p => .property (storedProperty p)) ++
    [.ctor (defaultConstructor c), .ctor (fullConstructor c), .ctor (copyConstructor c)] ++
    (deepCloneMethods settings c).map .method ++
    [.method (initMethod c)]

end Classwright.Emit
