import Classwright.Instance.Basic
import Classwright.Json.Order

/-!
# Order of instances

The first property that differs decides, and `null` comes first. Lists go by length and then item by
item, maps by size, then by their sorted keys, then by the values of these keys.
-/

namespace Classwright

/-- Compares a value with another one, by a comparison and a shape. -/
abbrev OrderTest := Comparison → Shape → Json → Except InstanceFault Ordering

/-- The first result that is not `.eq`. -/
def firstUnequal {α : Type} (test : α → Except InstanceFault Ordering) :
    List α → Except InstanceFault Ordering
  | [] => .ok .eq
  | x :: rest => do
    match ← test x with
    | .eq => firstUnequal test rest
    | o => .ok o

/-- `null` comes before everything else. -/
def orderNull : OrderTest := fun _ _ b => .ok (if b.isNull then .eq else .lt)

namespace Registry

/-- One step of `orderValues`. -/
def orderStep (r : Registry) (a : Json) (items : List OrderTest) (fields : Fields OrderTest) :
    OrderTest := fun comparison shape b =>
  if a.isNull then orderNull comparison shape b
  else if b.isNull then .ok .gt
  else
    match comparison, a, b with
    | .structural name, _, b => do
      let c ← r.find name
      firstUnequal (fun p => (Fields.get? fields p.jsonName).getD orderNull p.evaluated p.shape
        (b.part p.jsonName)) c.properties
    | .sequence inner, .list _, .list ys =>
      match compare items.length ys.length with
      | .eq => firstUnequal (fun (test, y) => test inner shape.element y) (items.zip ys)
      | o => .ok o
    | .unordered inner, .object _, .object ys =>
      let left := fields.sorted
      let right := Fields.sorted ys
      match (compare fields.length ys.length).then (orderKeys left.keys right.keys) with
      | .eq =>
        firstUnequal (fun (test, y) => test inner shape.element y) (left.values.zip right.values)
      | o => .ok o
    | _, a, b => .ok (a.order b)

/-- The order of two values, by a comparison and a shape. -/
def orderValues (r : Registry) : Json → OrderTest := Json.walk r.orderStep

/-- The order of two instances of a class. -/
def order (r : Registry) (className : String) (a b : Json) : Except InstanceFault Ordering := do
  let _ ← r.find className
  r.orderValues a (.structural className) (.ofClass className) b

end Registry

end Classwright
