import Mathlib.Data.List.Pairwise
import Classwright.Proofs.Instance.Visit
import Classwright.Proofs.Machine.Owned

/-!
# Substitutions in the heap

The evaluator's substitution is a function on trees, and a visitor in the heap replaces objects. An
object does not say by itself which tree it is, because an instance may hold more than the properties
of its class. So what a substitution in the heap has to do depends on the tree that is visited.

* **`VisitedAs`** — for each object in a tree, the instance that the evaluator hands to its
  substitution there. Without sharing this is one instance for each object (`VisitedAs.unique`).
* **`Substitutes`** — a substitution in the heap that follows the evaluator's one on known objects.
  It may put new objects in the place of an object, or a value of no class.
* **`exists_substitutes`** — every function on trees is followed by a substitution in the heap.
-/

namespace Classwright.Machine

variable {r : Registry} {f : String → Json → Json} {heap : Heap} {form : Form}

/-! ## The objects that a visit meets -/

/-- A value that is held by the object behind another one, both with their shapes and trees. -/
inductive Below (r : Registry) (heap : Heap) :
    Shape → Value → Json → Shape → Value → Json → Prop where
  | property {name : String} {c : ClassModel} {address : Nat} {properties : Fields Value}
      {given : List (String × Json)} {p : Property} {v : Value} (hc : r.get? name = some c)
      (ho : heap.object? address = some (.instanceOf name properties)) (hp : p ∈ c.properties)
      (hv : properties.get? p.name = some v) :
      Below r heap (.ofClass name) (.ref address) (.object given) p.shape v
        ((Json.object given).part p.jsonName)
  | item {element : Shape} {address i : Nat} {values : List Value} {items : List Json} {v : Value}
      {a : Json} (ho : heap.object? address = some (.list values)) (hv : values[i]? = some v)
      (ha : items[i]? = some a) :
      Below r heap (.array element) (.ref address) (.list items) element v a
  | entry {element : Shape} {address : Nat} {entries : Fields Value}
      {fields : List (String × Json)} {key : String} {v : Value} {a : Json}
      (ho : heap.object? address = some (.dictionary entries)) (hv : entries.get? key = some v)
      (ha : Fields.get? fields key = some a) :
      Below r heap (.map element) (.ref address) (.object fields) element v a

/-- An object in a tree, and the instance that it is when the evaluator replaces it: its properties
are visited already. -/
inductive VisitedAs (r : Registry) (f : String → Json → Json) (heap : Heap) :
    Shape → Value → Json → Nat → Json → Prop where
  | here {name : String} {c : ClassModel} {address : Nat} {given done : List (String × Json)}
      {visits : List String} (hc : r.get? name = some c)
      (h : Registry.visitProperties c given (Fields.mapValues (r.visitValue f) given) =
        .ok (done, visits)) :
      VisitedAs r f heap (.ofClass name) (.ref address) (.object given) address (.object done)
  | further {shape shape' : Shape} {v v' : Value} {a a' : Json} {x : Nat} {b : Json}
      (h : Below r heap shape v a shape' v' a') (hx : VisitedAs r f heap shape' v' a' x b) :
      VisitedAs r f heap shape v a x b

theorem Below.exists_address {shape shape' : Shape} {v v' : Value} {a a' : Json}
    (h : Below r heap shape v a shape' v' a') : ∃ address, v = .ref address := by
  cases h with
  | property => exact ⟨_, rfl⟩
  | item => exact ⟨_, rfl⟩
  | entry => exact ⟨_, rfl⟩

/-- What an object of a tree holds is a row of trees. -/
theorem Owns.exists_parts {q : Part} {address : Nat} (h : Owns r form heap q)
    (hv : q.value = .ref address) :
    ∃ row, q.cells = address :: Part.allCells row ∧ (∀ p ∈ row, Owns r form heap p) ∧
      ∀ {shape v a}, Below r heap q.shape q.value q.tree shape v a →
        ∃ p ∈ row, shape = p.shape ∧ v = p.value ∧ a = p.tree := by
  cases h with
  | null => cases hv
  | scalar => cases hv
  | foreign => cases hv
  | object parts hc hparts ho hshape htree hvalue hd =>
    cases hv
    refine ⟨parts.map Prod.snd, rfl, List.forall_mem_map.2 hd, fun hbelow => ?_⟩
    cases hbelow with
    | property hc' ho' hp hv =>
      cases hc.symm.trans hc'
      cases ho.symm.trans ho'
      rw [← hparts] at hp
      obtain ⟨q, hq, rfl⟩ := List.mem_map.1 hp
      exact ⟨q.2, List.mem_map.2 ⟨q, hq, rfl⟩, (hshape q hq).symm,
        Option.some.inj (hv.symm.trans (hvalue q hq)), (htree q hq).symm⟩
  | list parts ho hshape hd =>
    cases hv
    refine ⟨parts, rfl, hd, fun hbelow => ?_⟩
    cases hbelow with
    | item ho' hv ha =>
      cases ho.symm.trans ho'
      rw [List.getElem?_map, Option.map_eq_some_iff] at hv ha
      obtain ⟨q, hq, rfl⟩ := hv
      obtain ⟨q', hq', rfl⟩ := ha
      cases hq.symm.trans hq'
      have hmem := List.mem_of_getElem? hq
      exact ⟨q, hmem, (hshape q hmem).symm, rfl, rfl⟩
  | map parts hk ho hshape hd =>
    cases hv
    refine ⟨parts.map Prod.snd, rfl, List.forall_mem_map.2 hd, fun hbelow => ?_⟩
    cases hbelow with
    | entry ho' hv ha =>
      cases ho.symm.trans ho'
      rw [Fields.get?_mapValues, Option.map_eq_some_iff] at hv ha
      obtain ⟨q, hq, rfl⟩ := hv
      obtain ⟨q', hq', rfl⟩ := ha
      cases hq.symm.trans hq'
      have hmem := Fields.mem_of_get? hq
      exact ⟨q, List.mem_map.2 ⟨_, hmem, rfl⟩, (hshape _ hmem).symm, rfl, rfl⟩

/-- Trees of a row that have an object in common are the same. -/
theorem Part.eq_of_mem_cells {row : List Part} (h : (Part.allCells row).Nodup) {p q : Part}
    (hp : p ∈ row) (hq : q ∈ row) {x : Nat} (hxp : x ∈ p.cells) (hxq : x ∈ q.cells) : p = q := by
  by_contra hne
  have : Std.Symm (Function.onFun List.Disjoint Part.cells) := ⟨fun _ _ h _ hx hy => h hy hx⟩
  have hdisjoint := (List.nodup_flatMap.1 h).2.forall hp hq hne
  exact hdisjoint hxp hxq

namespace VisitedAs

variable {shape : Shape} {v : Value} {a b b' : Json} {x : Nat} {cells : List Nat}

theorem mem_cells (h : VisitedAs r f heap shape v a x b)
    (howns : Owns r form heap ⟨shape, v, a, cells⟩) : x ∈ cells := by
  induction h generalizing cells with
  | here hc h =>
    obtain ⟨row, rfl, -⟩ := howns.exists_parts rfl
    exact List.mem_cons_self
  | further h _ ih =>
    obtain ⟨address, rfl⟩ := h.exists_address
    obtain ⟨row, rfl, hrow, hparts⟩ := howns.exists_parts rfl
    obtain ⟨p, hp, rfl, rfl, rfl⟩ := hparts h
    exact List.mem_cons_of_mem _ (Part.cells_subset_allCells hp (ih (hrow p hp)))

/-- An object that holds a tree is none of the objects in it. -/
theorem ne_of_below {address : Nat} {shape' : Shape} {v' : Value} {a' : Json}
    (hbelow : Below r heap shape (.ref address) a shape' v' a')
    (h : VisitedAs r f heap shape' v' a' x b)
    (howns : Owns r form heap ⟨shape, .ref address, a, cells⟩) (hcells : cells.Nodup) :
    x ≠ address := by
  obtain ⟨row, rfl, hrow, hparts⟩ := howns.exists_parts rfl
  obtain ⟨p, hp, rfl, rfl, rfl⟩ := hparts hbelow
  rintro rfl
  exact (List.nodup_cons.1 hcells).1 (Part.cells_subset_allCells hp (h.mem_cells (hrow p hp)))

/-- **In a tree without sharing, each object is visited as one instance.** -/
theorem unique (h : VisitedAs r f heap shape v a x b) (h' : VisitedAs r f heap shape v a x b')
    (howns : Owns r form heap ⟨shape, v, a, cells⟩) (hcells : cells.Nodup) : b = b' := by
  induction h generalizing cells with
  | here hc h =>
    cases h' with
    | here hc' h' =>
      cases hc.symm.trans hc'
      cases h.symm.trans h'
      rfl
    | further hbelow hx => exact absurd rfl (hx.ne_of_below hbelow howns hcells)
  | further hbelow hx ih =>
    cases h' with
    | here hc' h' => exact absurd rfl (hx.ne_of_below hbelow howns hcells)
    | further hbelow' hx' =>
      obtain ⟨address, rfl⟩ := hbelow.exists_address
      obtain ⟨row, rfl, hrow, hparts⟩ := howns.exists_parts rfl
      have hnodup := (List.nodup_cons.1 hcells).2
      obtain ⟨p, hp, rfl, rfl, rfl⟩ := hparts hbelow
      obtain ⟨q, hq, rfl, rfl, rfl⟩ := hparts hbelow'
      -- the object lies in both parts, so they are one
      cases Part.eq_of_mem_cells hnodup hp hq (hx.mem_cells (hrow p hp))
        (hx'.mem_cells (hrow q hq))
      exact ih hx' (hrow p hp) ((List.nodup_flatMap.1 hnodup).1 p hp)

end VisitedAs

/-! ## Substitutions -/

/-- **A substitution in the heap that follows one on trees**, for objects that are known to be
certain instances. What it gives is made of the objects of the instance and of new ones. -/
def Substitutes (r : Registry) (f : String → Json → Json)
    (substitute : String → Heap → Value → Heap × Value) (known : Nat → Json → Prop) : Prop :=
  ∀ {x : Nat} {name : String} {b : Json} {heap : Heap} {cells : List Nat}, known x b →
    Owns r .replaced heap ⟨.ofClass name, .ref x, b, cells⟩ → cells.Nodup →
    ∃ cells', Owns r .replaced (heap ++ (substitute name heap (.ref x)).1)
        ⟨.ofClass name, (substitute name heap (.ref x)).2, f name b, cells'⟩ ∧
      cells'.Nodup ∧ ∀ y ∈ cells', y ∈ cells ∨ heap.length ≤ y

/-- A tree as a value of no class. -/
def Value.foreign (a : Json) : Value := if a.isNull then .null else .leaf a

theorem owns_foreign (name : String) (a : Json) :
    Owns r .replaced heap ⟨.ofClass name, .foreign a, a, []⟩ := by
  unfold Value.foreign
  cases ha : a.isNull with
  | true =>
    cases Json.eq_null_of_isNull ha
    exact .null rfl
  | false => exact .foreign rfl ha

/-- **Every substitution on trees is followed by one in the heap.** -/
theorem exists_substitutes (r : Registry) (f : String → Json → Json) {known : Nat → Json → Prop}
    (hknown : ∀ x b b', known x b → known x b' → b = b') :
    ∃ substitute, Substitutes r f substitute known := by
  have hinstance (v : Value) : ∃ a, ∀ x b, v = .ref x → known x b → a = b := by
    by_cases h : ∃ x b, v = .ref x ∧ known x b
    · obtain ⟨x, b, rfl, hb⟩ := h
      refine ⟨b, fun y b' hy hb' => ?_⟩
      cases hy
      exact hknown x b b' hb hb'
    · exact ⟨.null, fun x b hv hb => absurd ⟨x, b, hv, hb⟩ h⟩
  obtain ⟨instanceAt, hat⟩ := Classical.axiomOfChoice hinstance
  refine ⟨fun name _ v => ([], .foreign (f name (instanceAt v))), fun {x} _ {b} _ _ hb _ _ => ?_⟩
  dsimp only
  rw [hat (.ref x) x b rfl hb]
  exact ⟨[], owns_foreign _ _, List.nodup_nil, fun _ hy => absurd hy List.not_mem_nil⟩

end Classwright.Machine
