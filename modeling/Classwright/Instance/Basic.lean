import Classwright.Json.Walk
import Classwright.Model.Basic

/-!
# Instances

An instance of a class is an object with the names of the properties as keys. What is not there is
`null`, and values that do not fit their shape are allowed. The modules of this folder say what the
generated members do with instances.
-/

namespace Classwright

/-- Why a generated member fails. -/
inductive InstanceFault where
  /-- An argument that must not be `null` is. -/
  | nullArgument (name : String)
  | unknownClass (name : String)
deriving DecidableEq, Repr

/-- The wording of a fault. -/
def InstanceFault.message : InstanceFault → String
  | nullArgument name => "argument '" ++ name ++ "' must not be null"
  | unknownClass name => "unknown class '" ++ name ++ "'"

/-- The class of a name, or the fault that there is none. -/
def Registry.find (r : Registry) (name : String) : Except InstanceFault ClassModel :=
  match r.get? name with
  | some c => .ok c
  | none => .error (.unknownClass name)

/-- The comparison by which a property is evaluated. A comparer that a hint names is not known
here, so such a property goes by its shape. -/
def Property.evaluated (p : Property) : Comparison :=
  match p.comparison with
  | .custom _ => p.shape.comparison
  | c => c

end Classwright
