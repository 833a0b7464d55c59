import Classwright.Model.Classify

/-!
# Building the class model

The root schema and the definitions are taken in document order. Each one that is a class takes
its name; a name that is taken is a fault, and the class that came second is left out. All faults
of a schema are reported together.
-/

namespace Classwright

/-- A schema that gives a class. -/
structure ClassSource where
  /-- The identifier of the class in hints. -/
  schemaId : String
  schema : Schema

/-- The schemas that give classes: the root, under the name of its class, and the definitions. -/
def Schema.classSources (s : Schema) (rootClass : String) : List ClassSource :=
  (if s.isClass then [⟨rootClass, s⟩] else []) ++
    (s.definitions.filter (·.2.isClass)).map fun (name, definition) => ⟨name, definition⟩

/-- The property for a property of a schema. -/
def Scope.property (scope : Scope) (schemaId : String) (owner : Schema) (jsonName : String)
    (s : Schema) : Noted Property :=
  (scope.propertyShape ⟨schemaId, jsonName⟩ s).map fun shape => {
    jsonName
    name := (scope.hints.propertyName? schemaId jsonName).getD (Text.upperCamel jsonName)
    shape
    kind := shape.kind
    arrayDepth := shape.arrayDepth
    isVisitable := shape.containsClass
    comparison :=
      match scope.hints.comparer? schemaId jsonName with
      | some comparer => .custom comparer
      | none => shape.comparison
    required := owner.isRequired jsonName
    description := s.description
    modifiers := (scope.hints.modifiers? schemaId jsonName).getD ["public"] }

/-- The results of a list of steps, with everything noted on the way. -/
def Noted.collect {α : Type} : List (Noted α) → Noted (List α)
  | [] => ⟨[], [], []⟩
  | x :: rest =>
    let y := collect rest
    ⟨x.value :: y.value, x.faults ++ y.faults, x.warnings ++ y.warnings⟩

/-- The class of a source, under a given name. -/
def Scope.classModel (scope : Scope) (source : ClassSource) (name : String) : Noted ClassModel :=
  let properties := source.schema.properties.map fun (jsonName, s) =>
    scope.property source.schemaId source.schema jsonName s
  (Noted.collect properties).map fun properties => {
    schemaId := source.schemaId
    name
    description := source.schema.description
    baseTypes := scope.hints.baseTypes source.schemaId
    properties }

/-- The model so far: who took which name, the classes under these names, and what was noted. -/
structure ModelDraft where
  taken : Fields String := []
  classes : Fields ClassModel := []
  faults : List ModelFault := []
  warnings : List Warning := []

/-- Adds the class of a source, or the fault that its name is taken. -/
def ModelDraft.add (scope : Scope) (draft : ModelDraft) (source : ClassSource) : ModelDraft :=
  let name := scope.hints.classNameFor source.schemaId
  match draft.taken.get? name with
  | some first =>
    { draft with faults := draft.faults ++ [.collision name first source.schemaId] }
  | none =>
    let model := scope.classModel source name
    { taken := draft.taken ++ [(name, source.schemaId)]
      classes := insertClass model.value.name model.value draft.classes
      faults := draft.faults ++ model.faults
      warnings := draft.warnings ++ model.warnings }

/-- The registry of the classes so far. -/
def ModelDraft.registry (draft : ModelDraft) : Registry := .ofEntries draft.classes

/-- The model of a schema with everything noted on the way. -/
def ModelDraft.ofSchema (s : Schema) (hints : HintTable) (rootClass : String) : ModelDraft :=
  (s.classSources rootClass).foldl (ModelDraft.add ⟨s.definitions, hints⟩) {}

namespace Registry

/-- The classes of a schema, or all its faults. -/
def build (s : Schema) (hints : HintTable) (rootClass : String) :
    Except (List ModelFault) Registry :=
  let draft := ModelDraft.ofSchema s hints rootClass
  if draft.faults.isEmpty then .ok draft.registry else .error draft.faults

/-- What is to be said about the schema besides. -/
def buildWarnings (s : Schema) (hints : HintTable) (rootClass : String) : List Warning :=
  (ModelDraft.ofSchema s hints rootClass).warnings

end Registry

end Classwright
