import Classwright.Instance.Basic

/-!
# Copies of instances

A copy has the declared properties that are not `null`, in the order of the class. Lists and maps
are copied level by level and keep their `null`s.
-/

namespace Classwright

/-- Copies a value by its shape. -/
abbrev Copier := Shape → Except InstanceFault Json

namespace Registry

/-- The copy of an instance of a class, from copiers for its fields. A `null` is left out. -/
def copyProperties (c : ClassModel) (fields : Fields Copier) : Except InstanceFault Json := do
  let copied ← c.properties.foldlM (fun (done : Fields Json) p =>
    match Fields.get? fields p.jsonName with
    | some copier => do
      let copy ← copier p.shape
      return if copy.isNull then done else done.insert p.jsonName copy
    | none => return done) []
  return .object copied

/-- One step of `copyValue`. -/
def copyStep (r : Registry) (v : Json) (items : List Copier) (fields : Fields Copier) : Copier :=
  fun shape =>
    match shape, v with
    | _, .null => .ok .null
    | .ofClass name, _ => do copyProperties (← r.find name) fields
    | .array element, .list _ => return .list (← items.mapM fun copier => copier element)
    | .map element, .object _ =>
      return .object (← fields.mapM fun (key, copier) => return (key, ← copier element))
    | _, v => .ok v

/-- The copy of a value by its shape. -/
def copyValue (r : Registry) : Json → Copier := Json.walk r.copyStep

/-- The copy of an instance of a class. -/
def deepClone (r : Registry) (className : String) (v : Json) : Except InstanceFault Json :=
  if v.isNull then .error (.nullArgument "other") else r.copyValue v (.ofClass className)

end Registry

end Classwright
