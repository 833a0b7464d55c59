/-!
# Generated code

Declarations, statements and expressions of the generated C# code, as far as the generator needs
them. Trees say nothing about layout or parentheses; the printer adds both.
-/

namespace Classwright.Code

/-- A type by name, with arguments if it is generic. -/
inductive TypeRef where
  | named (name : String)
  | generic (name : String) (arguments : List TypeRef)
deriving Repr, Inhabited

/-- Operators between two operands. -/
inductive BinaryOp where
  | equal
  | notEqual
  | or
  | add
  | multiply
deriving DecidableEq, Repr, Inhabited

/-- Expressions. -/
inductive Expr where
  | ident (name : String)
  | this
  | null
  | bool (value : Bool)
  | int (value : Int)
  /-- A type where an expression stands, as in `Comparer<T>.Default`. -/
  | type (type : TypeRef)
  | member (target : Expr) (name : String)
  | index (target position : Expr)
  | call (callee : Expr) (arguments : List Expr)
  | new (type : TypeRef) (arguments : List Expr)
  | cast (type : TypeRef) (operand : Expr)
  /-- A conversion that gives `null` where it does not apply. -/
  | asType (operand : Expr) (type : TypeRef)
  | binary (left : Expr) (op : BinaryOp) (right : Expr)
  | not (operand : Expr)
  | conditional (condition yes no : Expr)
  /-- An output argument that declares a local. -/
  | outVar (name : String)
deriving Repr, Inhabited

/-- Statements. -/
inductive Stmt where
  | expr (value : Expr)
  | assign (target value : Expr)
  /-- A local; its type is inferred unless it is given. -/
  | declare (name : String) (type : Option TypeRef) (init : Expr)
  | ret (value : Expr)
  | ifElse (condition : Expr) (yes no : List Stmt)
  /-- A loop over `0, 1, …` below a bound. -/
  | forBelow (index : String) (bound : Expr) (body : List Stmt)
  | forEach (item : String) (type : Option TypeRef) (items : Expr) (body : List Stmt)
  | switch (subject : Expr) (cases : List (Expr × List Stmt)) (otherwise : List Stmt)
  | raise (value : Expr)
  /-- A block in which arithmetic wraps around. -/
  | unchecked (body : List Stmt)
deriving Repr, Inhabited

/-- The documentation of a declaration. Its texts are markup. -/
structure DocComment where
  summary : String := ""
  params : List (String × String) := []
  returns : Option String := none
  exceptions : List (String × String) := []
deriving DecidableEq, Repr, Inhabited

/-- How a property gets its value. -/
inductive PropertyBody where
  /-- Stored, with a getter and a setter. -/
  | auto
  /-- Computed. -/
  | getter (value : Expr)
  /-- Declared only. -/
  | abstract
deriving Repr, Inhabited

/-- A parameter. -/
structure Param where
  name : String
  type : TypeRef
deriving Repr, Inhabited

/-- A type parameter with its constraints. -/
structure TypeParam where
  name : String
  constraints : List String := []
deriving DecidableEq, Repr, Inhabited

/-- A property declaration. -/
structure PropertyDecl where
  name : String
  type : TypeRef
  modifiers : List String := []
  body : PropertyBody
  doc : Option DocComment := none
deriving Repr, Inhabited

/-- A constructor declaration. -/
structure ConstructorDecl where
  modifiers : List String := []
  params : List Param := []
  body : List Stmt := []
  doc : Option DocComment := none
deriving Repr, Inhabited

/-- A method or operator declaration. Without a return type it returns nothing, without a body it
is declared only. -/
structure MethodDecl where
  name : String
  modifiers : List String := []
  typeParams : List TypeParam := []
  params : List Param := []
  returns : Option TypeRef := none
  body : Option (List Stmt) := some []
  doc : Option DocComment := none
deriving Repr, Inhabited

/-- A member of a type. -/
inductive Member where
  | property (decl : PropertyDecl)
  | ctor (decl : ConstructorDecl)
  | method (decl : MethodDecl)
  | enumValue (name : String) (doc : Option DocComment)
deriving Repr, Inhabited

/-- The name of a member. -/
def Member.name : Member → String
  | property p => p.name
  | ctor _ => ".ctor"
  | method m => m.name
  | enumValue name _ => name

/-- The kinds of types. -/
inductive TypeKind where
  | classType
  | interfaceType
  | enumType
deriving DecidableEq, Repr, Inhabited

/-- A type declaration. -/
structure TypeDecl where
  kind : TypeKind
  name : String
  modifiers : List String := []
  bases : List TypeRef := []
  doc : Option DocComment := none
  members : List Member := []
deriving Repr, Inhabited

/-- One file of generated code: a type in a namespace. -/
structure CompilationUnit where
  namespaceName : String
  name : String
  usings : List String := []
  decl : TypeDecl
deriving Repr, Inhabited

/-! ### Shorthands -/

namespace Expr

/-- `a == b`. -/
def equalTo (a b : Expr) : Expr := binary a .equal b

/-- `a != b`. -/
def notEqualTo (a b : Expr) : Expr := binary a .notEqual b

/-- `a || b`. -/
def orElse (a b : Expr) : Expr := binary a .or b

/-- `a == null`. -/
def isNull (a : Expr) : Expr := a.equalTo null

/-- `a != null`. -/
def isNotNull (a : Expr) : Expr := a.notEqualTo null

end Expr

namespace Stmt

/-- A condition without an alternative. -/
def ifThen (condition : Expr) (yes : List Stmt) : Stmt := ifElse condition yes []

/-- A local whose type is inferred. -/
def var (name : String) (init : Expr) : Stmt := declare name none init

end Stmt

end Classwright.Code
