import Classwright.Emit.Names
import Classwright.Model.Basic
import Classwright.Settings

/-!
# Support types

The enumeration of the generated classes and the interface that they all implement.
-/

namespace Classwright.Emit

open Code

/-- The file of the enumeration: `None`, then every class. -/
def kindEnumUnit (settings : Settings) (registry : Registry) : CompilationUnit where
  namespaceName := settings.namespaceName
  name := settings.kindEnumName
  decl := {
    kind := .enumType
    name := settings.kindEnumName
    modifiers := ["public"]
    doc := some {
      summary := "A set of values for all the types that implement " ++
        see settings.nodeInterfaceName ++ "." }
    members := ("None" :: registry.names).map fun name => .enumValue name none }

/-- The file of the interface. -/
def nodeInterfaceUnit (settings : Settings) (schemaName : String) : CompilationUnit where
  namespaceName := settings.namespaceName
  name := settings.nodeInterfaceName
  decl := {
    kind := .interfaceType
    name := settings.nodeInterfaceName
    modifiers := ["public"]
    doc := some {
      summary := "An interface for all types generated from the " ++ schemaName ++ " schema." }
    members := [
      .property {
        name := settings.kindEnumName
        type := .named settings.kindEnumName
        body := .abstract
        doc := some {
          summary :=
            "Gets a value indicating what object type is represented by this instance." } },
      .method {
        name := "DeepClone"
        returns := some (.named settings.nodeInterfaceName)
        body := none
        doc := some { summary := "Makes a deep copy of this instance." } }] }

end Classwright.Emit
