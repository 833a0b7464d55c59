import Classwright.Json.Basic

/-!
# Hints

A hint changes how one class or property is generated. A table holds, for each identifier, its
hints in order. An identifier is the name of a definition, or the name of a definition and that of
a property with a point between them.
-/

namespace Classwright

/-- A change to what is generated by default. -/
inductive Hint where
  /-- Names the class. -/
  | className (name : String)
  /-- Adds base types to the class. -/
  | baseTypes (names : List String)
  /-- Names the property. -/
  | propertyName (name : String)
  /-- Compares the property by a comparer of this name. -/
  | comparer (name : String)
  /-- Makes the property a map with values of the named type. -/
  | dictionary (valueType : Option String)
  /-- Replaces the modifiers of the property. -/
  | modifiers (modifiers : List String)
  /-- A hint of a kind that only its user knows. -/
  | extension (kind : String) (arguments : Json)
deriving Repr, Inhabited

/-- Hints by identifier, in the order in which identifiers first appeared. -/
structure HintTable where
  entries : Fields (List Hint) := []
deriving Repr, Inhabited

/-- The identifier of a property. -/
def propertyKey (definition property : String) : String := definition ++ "." ++ property

namespace HintTable

/-- Adds a hint after those that its identifier has. -/
def insert (t : HintTable) (schemaId : String) (hint : Hint) : HintTable :=
  ⟨t.entries.insert schemaId ((t.entries.get? schemaId).getD [] ++ [hint])⟩

/-- The identifiers that have hints. -/
def schemaIds (t : HintTable) : List String := t.entries.keys

/-- The hints of an identifier. -/
def get (t : HintTable) (schemaId : String) : List Hint := (t.entries.get? schemaId).getD []

/-- The hints of a property. -/
def forProperty (t : HintTable) (definition property : String) : List Hint :=
  t.get (propertyKey definition property)

/-- The name that hints give to a class. The first one counts. -/
def className? (t : HintTable) (definition : String) : Option String :=
  (t.get definition).findSome? fun
    | .className name => some name
    | _ => none

/-- All base types that hints give to a class. -/
def baseTypes (t : HintTable) (definition : String) : List String :=
  (t.get definition).flatMap fun
    | .baseTypes names => names
    | _ => []

/-- The name that hints give to a property. -/
def propertyName? (t : HintTable) (definition property : String) : Option String :=
  (t.forProperty definition property).findSome? fun
    | .propertyName name => some name
    | _ => none

/-- The comparer that hints give to a property. -/
def comparer? (t : HintTable) (definition property : String) : Option String :=
  (t.forProperty definition property).findSome? fun
    | .comparer name => some name
    | _ => none

/-- Whether hints make a property a map, and of what. -/
def dictionary? (t : HintTable) (definition property : String) : Option (Option String) :=
  (t.forProperty definition property).findSome? fun
    | .dictionary valueType => some valueType
    | _ => none

/-- The modifiers that hints give to a property. -/
def modifiers? (t : HintTable) (definition property : String) : Option (List String) :=
  (t.forProperty definition property).findSome? fun
    | .modifiers modifiers => some modifiers
    | _ => none

end HintTable

end Classwright
