import Classwright.Instance.Basic

/-!
# Visiting instances

A visitor replaces the objects below a node, each by what a substitution makes of it once the
objects below it are replaced. Everything else stays, in its place.
-/

namespace Classwright

/-- A value after a visit, with the classes of the objects that were visited, in order. -/
structure Visited where
  value : Json
  visits : List String := []
deriving Repr

/-- Visits a value by its shape. -/
abbrev Visit := Shape → Except InstanceFault Visited

namespace Registry

/-- The fields of an instance after its properties are visited in the order of the class, and the
visits on the way. A property that is not there is not visited. -/
def visitProperties (c : ClassModel) (given : Fields Json) (fields : Fields Visit) :
    Except InstanceFault (Fields Json × List String) :=
  c.visitable.foldlM (fun (done, visits) p =>
    match Fields.get? fields p.jsonName with
    | some visit => do
      let part ← visit p.shape
      return (Fields.insert done p.jsonName part.value, visits ++ part.visits)
    | none => return (done, visits)) (given, [])

/-- One step of `visitValue`. -/
def visitStep (substitute : String → Json → Json) (r : Registry) (v : Json)
    (items : List Visit) (fields : Fields Visit) : Visit := fun shape =>
  match shape, v with
  | _, .null => .ok ⟨.null, []⟩
  | .ofClass name, v => do
    let c ← r.find name
    match v with
    | .object given => do
      let (done, visits) ← visitProperties c given fields
      return ⟨substitute c.name (.object done), visits ++ [c.name]⟩
    | v => return ⟨substitute c.name v, [c.name]⟩
  | .array element, .list _ => do
    let parts ← items.mapM fun visit => visit element
    return ⟨.list (parts.map Visited.value), parts.flatMap Visited.visits⟩
  | .map element, .object _ => do
    let parts ← fields.mapM fun (key, visit) => return (key, ← visit element)
    return ⟨.object (parts.map fun (key, part) => (key, part.value)),
      parts.flatMap fun (_, part) => part.visits⟩
  | _, v => .ok ⟨v, []⟩

/-- A value with the objects in it replaced, by its shape. -/
def visitValue (substitute : String → Json → Json) (r : Registry) : Json → Visit :=
  Json.walk (r.visitStep substitute)

/-- An instance of a class with the objects in it replaced, itself included. -/
def visit (substitute : String → Json → Json) (r : Registry) (className : String) (v : Json) :
    Except InstanceFault Visited :=
  if v.isNull then .error (.nullArgument "node")
  else r.visitValue substitute v (.ofClass className)

end Registry

end Classwright
