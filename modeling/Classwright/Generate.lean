import Classwright.Code.Printer
import Classwright.Emit.Copy
import Classwright.Emit.Hash
import Classwright.Emit.Support
import Classwright.Emit.Order
import Classwright.Emit.Visitor
import Classwright.Model.Build

/-!
# Generation

From a schema, hints and settings to files of code: the classes in the order of their names, the
enumeration, the interface and, unless it is switched off, the visitor.
-/

namespace Classwright

open Code Emit

/-- The members for equality, hashing and order. -/
def equalityMembers (c : ClassModel) : List Member :=
  [equalsObject c, equalsTyped c, getHashCode c, compareTo c, operatorEqual c,
    operatorNotEqual c].map .method

/-- The interfaces for equality and order. -/
def equalityBases (className : String) : List TypeRef :=
  [.generic "IEquatable" [.named className], .generic "IComparable" [.named className]]

/-- The file of a class. -/
def classUnit (settings : Settings) (c : ClassModel) : CompilationUnit where
  namespaceName := settings.namespaceName
  name := c.name
  usings := ["System", "System.Collections.Generic"]
  decl := {
    kind := .classType
    name := c.name
    modifiers := ["public", "partial"]
    bases := c.baseTypes.map .named ++ [.named settings.nodeInterfaceName] ++
      (if settings.generateEquality then equalityBases c.name else [])
    doc := some {
      summary :=
        match c.description with
        | some text => escapeMarkup text
        | none => "Generated from the '" ++ escapeMarkup c.schemaId ++ "' schema definition." }
    members := classMembers settings c ++
      (if settings.generateEquality then equalityMembers c else []) }

/-- The files for a class model. -/
def unitsOf (settings : Settings) (rootClass : String) (registry : Registry) :
    List CompilationUnit :=
  let schemaName := settings.schemaName.getD rootClass
  registry.listed.map (classUnit settings) ++
    [kindEnumUnit settings registry, nodeInterfaceUnit settings schemaName] ++
    (if settings.generateVisitor then
      [visitorUnit settings registry schemaName (settings.visitorClass schemaName)]
    else [])

/-- The files for a schema, or all its faults. -/
def generate (s : Schema) (hints : HintTable) (settings : Settings) :
    Except (List ModelFault) (List CompilationUnit) :=
  let rootClass := settings.rootClass s.title
  (Registry.build s hints rootClass).map (unitsOf settings rootClass)

/-- The part of an identifier before its first point. -/
def hintedDefinition (schemaId : String) : String :=
  String.ofList (schemaId.toList.takeWhile (· ≠ '.'))

/-- Warnings for hints whose identifier names neither the root class nor a definition. -/
def hintTargetWarnings (s : Schema) (hints : HintTable) (rootClass : String) : List Warning :=
  (hints.schemaIds.filter fun schemaId =>
    let definition := hintedDefinition schemaId
    definition ≠ rootClass && !Fields.contains s.definitions definition).map .unknownHintTarget

/-- Warnings for classes with the name of something else that is generated. -/
def reservedNameWarnings (settings : Settings) (registry : Registry) : List Warning :=
  registry.names.flatMap fun name =>
    (if name = "Actual" ∨ name = "NullChecked" then [.reservedMethodName name] else []) ++
    (if name = settings.kindEnumName ∨ name = settings.nodeInterfaceName then
      [.reservedTypeName name]
    else [])

/-- What is to be said about a run besides its files. -/
def generateWarnings (s : Schema) (hints : HintTable) (settings : Settings) : List Warning :=
  let rootClass := settings.rootClass s.title
  let draft := ModelDraft.ofSchema s hints rootClass
  draft.warnings ++ hintTargetWarnings s hints rootClass ++
    reservedNameWarnings settings draft.registry

/-- A file of generated text. -/
structure RenderedFile where
  fileName : String
  text : String
deriving DecidableEq, Repr

/-- The texts of files. -/
def renderAll (settings : Settings) (units : List CompilationUnit) : List RenderedFile :=
  units.map fun u => ⟨u.fileName, u.render settings.copyrightNotice⟩

end Classwright
