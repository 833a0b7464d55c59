import Classwright.Code.Comment
import Classwright.Code.Expression
import Classwright.Code.Layout

/-!
# Text of generated code

Braces stand on lines of their own, a blank line separates members, and a file starts with its
notice and its imports.
-/

namespace Classwright.Code

/-- A declared type, or the word for an inferred one. -/
def typeOrVar : Option TypeRef → String
  | some t => t.render
  | none => "var"

/-- Marks in braces. -/
def braced (inner : List Mark) : List Mark := .opening :: inner ++ [.closing]

namespace Stmt

mutual

/-- The marks of a statement. -/
def marks : Stmt → List Mark
  | expr e => [.line (e.render ++ ";")]
  | assign target value => [.line (target.render ++ " = " ++ value.render ++ ";")]
  | declare name type init =>
    [.line (typeOrVar type ++ " " ++ name ++ " = " ++ init.render ++ ";")]
  | ret e => [.line ("return " ++ e.render ++ ";")]
  | ifElse condition yes no =>
    .line ("if (" ++ condition.render ++ ")") :: braced (sequence yes) ++
      (if no.isEmpty then [] else .line "else" :: braced (sequence no))
  | forBelow index bound body =>
    .line ("for (int " ++ index ++ " = 0; " ++ index ++ " < " ++ bound.render ++ "; ++" ++ index ++
      ")") :: braced (sequence body)
  | forEach item type items body =>
    .line ("foreach (" ++ typeOrVar type ++ " " ++ item ++ " in " ++ items.render ++ ")") ::
      braced (sequence body)
  | switch subject cases otherwise =>
    .line ("switch (" ++ subject.render ++ ")") ::
      braced (caseMarks cases ++
        (if otherwise.isEmpty then []
          else [.line "default:", .indent] ++ sequence otherwise ++ [.dedent]))
  | raise e => [.line ("throw " ++ e.render ++ ";")]
  | unchecked body => .line "unchecked" :: braced (sequence body)

/-- The marks of statements one after the other. -/
def sequence : List Stmt → List Mark
  | [] => []
  | s :: rest => s.marks ++ sequence rest

/-- The marks of the cases of a switch. -/
def caseMarks : List (Expr × List Stmt) → List Mark
  | [] => []
  | (label, body) :: rest =>
    [.line ("case " ++ label.render ++ ":"), .indent] ++ sequence body ++ [.dedent] ++
      caseMarks rest

end

end Stmt

/-- A declaration after its modifiers. -/
def withModifiers (modifiers : List String) (text : String) : String :=
  if modifiers.isEmpty then text else joinWith " " modifiers ++ " " ++ text

/-- The marks of a documentation comment. -/
def docMarks (doc : Option DocComment) : List Mark :=
  match doc with
  | some d => d.lines.map .line
  | none => []

/-- The text of a parameter list. -/
def renderParams (params : List Param) : String :=
  joinWith ", " (params.map fun p => p.type.render ++ " " ++ p.name)

/-- The marks of a property of a type of the given kind. -/
def PropertyDecl.marks (owner : TypeKind) (p : PropertyDecl) : List Mark :=
  let head := withModifiers p.modifiers (p.type.render ++ " " ++ p.name)
  let declared := [Mark.line (head ++ " \x7b get; \x7d")]
  docMarks p.doc ++
    match p.body with
    | .auto => [.line (head ++ " \x7b get; set; \x7d")]
    | .abstract => declared
    | .getter e =>
      if owner = .interfaceType then declared
      else .line head :: braced (.line "get" :: braced [.line ("return " ++ e.render ++ ";")])

/-- The marks of a constructor of the named class. -/
def ConstructorDecl.marks (className : String) (c : ConstructorDecl) : List Mark :=
  docMarks c.doc ++
    .line (withModifiers c.modifiers (className ++ "(" ++ renderParams c.params ++ ")")) ::
      braced (Stmt.sequence c.body)

/-- The head of a method. -/
def MethodDecl.head (m : MethodDecl) : String :=
  let returns :=
    match m.returns with
    | some t => t.render
    | none => "void"
  let generics :=
    if m.typeParams.isEmpty then "" else "<" ++ joinWith ", " (m.typeParams.map (·.name)) ++ ">"
  let constraints := (m.typeParams.filter (!·.constraints.isEmpty)).map fun t =>
    " where " ++ t.name ++ " : " ++ joinWith ", " t.constraints
  withModifiers m.modifiers
    (returns ++ " " ++ m.name ++ generics ++ "(" ++ renderParams m.params ++ ")") ++
    String.join constraints

/-- The marks of a method. -/
def MethodDecl.marks (m : MethodDecl) : List Mark :=
  docMarks m.doc ++
    match m.body with
    | some body => .line m.head :: braced (Stmt.sequence body)
    | none => [.line (m.head ++ ";")]

/-- The marks of the members of a type. Values of an enumeration are separated by commas, other
members by blank lines. -/
def memberMarks (kind : TypeKind) (typeName : String) : List Member → List Mark
  | [] => []
  | m :: rest =>
    let gap := if rest.isEmpty then [] else [Mark.blank]
    (match m with
      | .enumValue name doc =>
        docMarks doc ++ [.line (if rest.isEmpty then name else name ++ ",")]
      | .property p => p.marks kind ++ gap
      | .ctor c => c.marks typeName ++ gap
      | .method m => m.marks ++ gap) ++
      memberMarks kind typeName rest

/-- The keyword of a kind of type. -/
def TypeKind.keyword : TypeKind → String
  | classType => "class"
  | interfaceType => "interface"
  | enumType => "enum"

/-- The marks of a type. -/
def TypeDecl.marks (d : TypeDecl) : List Mark :=
  let head := withModifiers d.modifiers (d.kind.keyword ++ " " ++ d.name)
  let bases := if d.bases.isEmpty then "" else " : " ++ joinWith ", " (TypeRef.renderAll d.bases)
  docMarks d.doc ++ .line (head ++ bases) :: braced (memberMarks d.kind d.name d.members)

namespace CompilationUnit

/-- The marks of a file with an optional notice. -/
def marks (header : Option String) (u : CompilationUnit) : List Mark :=
  (match header with
    | some text => (headerLines text).map .line ++ [.blank]
    | none => []) ++
    (if u.usings.isEmpty then []
      else u.usings.map (fun name => .line ("using " ++ name ++ ";")) ++ [.blank]) ++
    .line ("namespace " ++ u.namespaceName) :: braced u.decl.marks

/-- The text of a file with an optional notice. -/
def render (header : Option String) (u : CompilationUnit) : String := Mark.render (u.marks header)

/-- The name of a file. -/
def fileName (u : CompilationUnit) : String := u.name ++ ".cs"

end CompilationUnit

end Classwright.Code
