import Classwright.Instance.Basic
import Classwright.Json.Order

/-!
# Equality of instances

Two instances are equal if their properties are. Lists are compared item by item and maps key by
key; everything else, and whatever does not fit its shape, is compared as a value.
-/

namespace Classwright

/-- Whether a value equals another one, by a comparison and a shape. -/
abbrev EqualityTest := Comparison → Shape → Json → Except InstanceFault Bool

/-- `null` equals `null` only. -/
def equalNull : EqualityTest := fun _ _ b => .ok b.isNull

namespace Registry

/-- Whether the properties of a class are equal, given tests for the fields of one instance. -/
def equalProperties (c : ClassModel) (fields : Fields EqualityTest) (b : Json) :
    Except InstanceFault Bool :=
  c.properties.allM fun p =>
    (Fields.get? fields p.jsonName).getD equalNull p.evaluated p.shape (b.part p.jsonName)

/-- One step of `equalValues`. -/
def equalStep (r : Registry) (a : Json) (items : List EqualityTest) (fields : Fields EqualityTest) :
    EqualityTest := fun comparison shape b =>
  if a.isNull || b.isNull then .ok (a.isNull && b.isNull)
  else
    match comparison, a, b with
    | .structural name, _, b => do equalProperties (← r.find name) fields b
    | .sequence inner, .list _, .list ys =>
      if items.length = ys.length then
        (items.zip ys).allM fun (test, y) => test inner shape.element y
      else .ok false
    | .unordered inner, .object _, .object ys =>
      if fields.length = ys.length then
        fields.allM fun (key, test) =>
          match Fields.get? ys key with
          | some y => test inner shape.element y
          | none => .ok false
      else .ok false
    | _, a, b => .ok (a.order b == .eq)

/-- Whether two values are equal, by a comparison and a shape. -/
def equalValues (r : Registry) : Json → EqualityTest := Json.walk r.equalStep

/-- Whether two instances of a class are equal. -/
def equals (r : Registry) (className : String) (a b : Json) : Except InstanceFault Bool := do
  let _ ← r.find className
  r.equalValues a (.structural className) (.ofClass className) b

end Registry

end Classwright
