import Classwright.Instance.Basic
import Classwright.Json.Hash

/-!
# Hashes of instances

The hash of an instance folds its properties in order. A `null` that the generated code can hold
folds nothing, lists fold their items, and maps fold the sum over their entries.
-/

namespace Classwright

/-- Takes a value into a hash, by a comparison and a shape. -/
abbrev HashFold := Comparison → Shape → Int32 → Except InstanceFault Int32

namespace Registry

/-- The hash of an instance of a class, from folds for its fields. -/
def hashProperties (c : ClassModel) (fields : String → HashFold) : Except InstanceFault Int32 :=
  c.properties.foldlM (fun acc p => fields p.jsonName p.evaluated p.shape acc) hashSeed

/-- Takes `null` into a hash: a primitive that is never `null` in the generated code counts. -/
def hashNull : HashFold := fun comparison shape acc =>
  match comparison with
  | .value => .ok (if shape.isReferenceType then acc else foldHash acc 0)
  | _ => .ok acc

/-- One step of `hashInto`. -/
def hashStep (leaf : LeafHash) (r : Registry) (v : Json) (items : List HashFold)
    (fields : Fields HashFold) : HashFold := fun comparison shape acc =>
  match comparison, v with
  | comparison, .null => hashNull comparison shape acc
  | .structural name, _ => do
    let c ← r.find name
    let hash ← hashProperties c fun key => (Fields.get? fields key).getD hashNull
    .ok (foldHash acc hash)
  | .sequence inner, .list _ => items.foldlM (fun acc fold => fold inner shape.element acc) acc
  | .unordered inner, .object _ => do
    let sum ← fields.foldlM (fun sum (key, fold) => do
      let hash ← fold inner shape.element (leaf.text key)
      .ok (sum + hash)) 0
    .ok (foldHash acc sum)
  | _, v => .ok (foldHash acc (v.hash leaf))

/-- Takes a value into a hash, by a comparison and a shape. -/
def hashInto (leaf : LeafHash) (r : Registry) : Json → HashFold := Json.walk (r.hashStep leaf)

/-- The hash of an instance of a class. -/
def hash (leaf : LeafHash) (r : Registry) (className : String) (v : Json) :
    Except InstanceFault Int32 := do
  hashProperties (← r.find className) fun key => r.hashInto leaf (v.part key)

end Registry

end Classwright
