import Classwright.Emit.Names
import Classwright.Model.Basic
import Classwright.Settings

/-!
# The visitor

A visitor replaces every object below a node by what its own visit gives, in place. Lists keep
their order and maps their keys; properties that hold no objects are not touched.
-/

namespace Classwright.Emit

open Code

/-- The method that visits a node or `null`. -/
def visitNullChecked : String := "VisitNullChecked"

/-- The method that visits an object of a class. -/
def visitMethodName (className : String) : String := "Visit" ++ className

/-- Goes on with an element: an object is assigned through the index, a container through a local
for it. -/
def withElement (shape : Shape) (element : Expr) (level : Nat) (body : Expr → List Stmt) :
    List Stmt :=
  match shape with
  | .ofClass _ => body element
  | _ =>
    let value := numbered "value" level
    .var value element :: body (.ident value)

/-- Statements that replace the objects reachable from `target`. -/
def visitStatements (target : Expr) (shape : Shape) (level : Nat) : List Stmt :=
  match shape with
  | .scalar _ => []
  | .ofClass _ => [.assign target (.call (.ident visitNullChecked) [target])]
  | .array element =>
    if element.containsClass then
      let index := numbered "index" level
      let body := withElement element (.index target (.ident index)) level fun e =>
        visitStatements e element (level + 1)
      [.ifThen target.isNotNull [.forBelow index (count target) body]]
    else []
  | .map element =>
    if element.containsClass then
      let key := numbered "key" level
      let body := withElement element (.index target (.ident key)) level fun e =>
        visitStatements e element (level + 1)
      -- The keys are copied first, because the map changes while they are gone through.
      let keys := .new (.generic "List" [.named "string"]) [.member target "Keys"]
      [.ifThen target.isNotNull [.forEach key (some (.named "string")) keys body]]
    else []

/-- Where a visit starts. -/
def visitMethod (settings : Settings) (schemaName : String) : MethodDecl where
  name := "Visit"
  modifiers := ["public", "virtual"]
  params := [⟨"node", .named settings.nodeInterfaceName⟩]
  returns := some (.named "object")
  body := some [.ret (.call (.member .this "VisitActual") [.ident "node"])]
  doc := some {
    summary := "Starts a rewriting visit of a node in the " ++ schemaName ++ " object model."
    params := [("node", "The node to rewrite.")]
    returns := some "A rewritten instance of the node." }

/-- Where a visit finds the method for the class of the node. -/
def visitActualMethod (settings : Settings) (schemaName : String) (names : List String) :
    MethodDecl where
  name := "VisitActual"
  modifiers := ["public", "virtual"]
  params := [⟨"node", .named settings.nodeInterfaceName⟩]
  returns := some (.named "object")
  body := some [
    .ifThen (Expr.ident "node").isNull [.raise (argumentNull "node")],
    .switch (.member (.ident "node") settings.kindEnumName)
      (names.map fun name =>
        (.member (.ident settings.kindEnumName) name,
          [.ret (.call (.ident (visitMethodName name)) [.cast (.named name) (.ident "node")])]))
      [.ret (.ident "node")]]
  doc := some {
    summary := "Visits and rewrites a node in the " ++ schemaName ++ " object model."
    params := [("node", "The node to rewrite.")]
    returns := some "A rewritten instance of the node."
    exceptions := [("ArgumentNullException", "The node is null.")] }

/-- The visit of a node or `null`. -/
def visitNullCheckedMethod (settings : Settings) : MethodDecl where
  name := visitNullChecked
  modifiers := ["protected"]
  typeParams := [⟨"T", ["class", settings.nodeInterfaceName]⟩]
  params := [⟨"node", .named "T"⟩]
  returns := some (.named "T")
  body := some [
    .ifThen (Expr.ident "node").isNull [.ret .null],
    .ret (.cast (.named "T") (.call (.ident "Visit") [.ident "node"]))]

/-- The visit of an object of a class. -/
def visitClassMethod (c : ClassModel) : MethodDecl :=
  let statements := c.visitable.flatMap fun p =>
    visitStatements (.member (.ident "node") p.name) p.shape 0
  { name := visitMethodName c.name
    modifiers := ["public", "virtual"]
    params := [⟨"node", .named c.name⟩]
    returns := some (.named c.name)
    body := some <|
      (if statements.isEmpty then [] else [.ifThen (Expr.ident "node").isNotNull statements]) ++
      [.ret (.ident "node")] }

/-- The file of the visitor. -/
def visitorUnit (settings : Settings) (registry : Registry) (schemaName className : String) :
    CompilationUnit where
  namespaceName := settings.namespaceName
  name := className
  usings := ["System", "System.Collections.Generic"]
  decl := {
    kind := .classType
    name := className
    modifiers := ["public", "abstract"]
    doc := some { summary := "Rewriting visitor for the " ++ schemaName ++ " object model." }
    members :=
      [.method (visitMethod settings schemaName),
        .method (visitActualMethod settings schemaName registry.names),
        .method (visitNullCheckedMethod settings)] ++
      registry.listed.map fun c => .method (visitClassMethod c) }

end Classwright.Emit
