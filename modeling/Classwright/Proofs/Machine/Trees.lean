import Classwright.Proofs.Json.Induction
import Classwright.Proofs.Machine.Basic
import Classwright.Proofs.Model.Faults

/-!
# Instances in the heap

The evaluator works on instances as values, and generated code on objects in a heap. Here the two are
tied together.

* **`Registry.fits`** says which instances are well typed: scalars are of their primitive type, a
  primitive that is never `null` is there, maps repeat no key, and the properties of objects fit.
  What an object holds besides its properties does not matter.
* **`Denotes`** says which tree a value in a heap stands for. Objects may be shared, within a tree
  and between trees.
* **`Registry.shelves`** is a class whose objects lead to those of another class, where a hint names
  the property. Members that run well on the first class need not do so on the second one.
-/

namespace Classwright

/-! ## Well-typed instances -/

/-- Whether a value that is not `null` is of a primitive type. Both types of numbers take every
number. -/
def Primitive.accepts : Primitive → Json → Bool
  | .string, .text _ | .uri, .text _ | .dateTime, .text _ => true
  | .integer, .number _ | .number, .number _ => true
  | .boolean, .bool _ => true
  | .any, v => !v.isNull
  | _, _ => false

/-- Whether a value fits a shape. -/
abbrev ShapeTest := Shape → Bool

namespace Registry

/-- One step of `fits`. -/
def fitsStep (r : Registry) (v : Json) (items : List ShapeTest) (fields : Fields ShapeTest) :
    ShapeTest := fun shape =>
  match shape, v with
  | shape, .null => shape.isReferenceType
  | .scalar p, v => p.accepts v
  | .ofClass name, .object _ =>
    match r.get? name with
    | some c => c.properties.all fun p =>
        (Fields.get? fields p.jsonName).getD Shape.isReferenceType p.shape
    | none => false
  | .array element, .list _ => items.all fun test => test element
  | .map element, .object _ =>
    decide fields.keys.Nodup && fields.all fun (_, test) => test element
  | _, _ => false

/-- Whether a value is a well-typed value of a shape. -/
def fits (r : Registry) : Json → ShapeTest := Json.walk r.fitsStep

variable {r : Registry}

theorem fits_eq (v : Json) :
    r.fits v = r.fitsStep v (v.items.map r.fits) (Fields.mapValues r.fits v.fields) :=
  Json.walk_eq r.fitsStep v

theorem fits_null (shape : Shape) : r.fits .null shape = shape.isReferenceType := by
  rw [fits_eq]
  cases shape <;> rfl

theorem fits_scalar {v : Json} (hv : v.isNull = false) (p : Primitive) :
    r.fits v (.scalar p) = p.accepts v := by
  rw [fits_eq]
  cases v with
  | null => cases hv
  | _ => rfl

theorem fits_class {v : Json} (hv : v.isNull = false) {name : String}
    (h : r.fits v (.ofClass name) = true) :
    ∃ fields c, v = .object fields ∧ r.get? name = some c ∧
      ∀ p ∈ c.properties, r.fits (v.part p.jsonName) p.shape = true := by
  have hpart (key : String) : (Fields.get? (Fields.mapValues r.fits v.fields) key).getD
      Shape.isReferenceType = r.fits (v.part key) := by
    have hnull : Json.walk r.fitsStep .null = Shape.isReferenceType := funext fits_null
    rw [← hnull]
    exact Json.getD_get?_walk r.fitsStep v key
  rw [fits_eq] at h
  cases v with
  | object fields =>
    cases hc : r.get? name with
    | none => simp [fitsStep, hc] at h
    | some c =>
      simp only [fitsStep, hc, hpart, List.all_eq_true] at h
      exact ⟨fields, c, rfl, rfl, h⟩
  | null => cases hv
  | _ => cases h

theorem fits_array {v : Json} (hv : v.isNull = false) {element : Shape}
    (h : r.fits v (.array element) = true) :
    ∃ items, v = .list items ∧ ∀ x ∈ items, r.fits x element = true := by
  rw [fits_eq] at h
  cases v with
  | list items =>
    refine ⟨items, rfl, ?_⟩
    simpa [fitsStep, Json.items] using h
  | null => cases hv
  | _ => cases h

theorem fits_map {v : Json} (hv : v.isNull = false) {element : Shape}
    (h : r.fits v (.map element) = true) :
    ∃ fields, v = .object fields ∧ (Fields.keys fields).Nodup ∧
      ∀ f ∈ fields, r.fits f.2 element = true := by
  rw [fits_eq] at h
  cases v with
  | object fields =>
    simp only [fitsStep, Fields.keys_mapValues, Bool.and_eq_true] at h
    obtain ⟨hk, hv⟩ := h
    refine ⟨fields, rfl, of_decide_eq_true hk, fun f hf => ?_⟩
    exact List.all_eq_true.1 hv (f.1, r.fits f.2) (List.mem_map.2 ⟨f, hf, rfl⟩)
  | null => cases hv
  | _ => cases h

/-- A class that values of a shape lead to: the one that the shape names, or one further down. -/
inductive Reaches (r : Registry) : Shape → ClassModel → Prop where
  | here {shape : Shape} {name : String} {c : ClassModel} (hs : shape.leaf = .ofClass name)
      (hc : r.get? name = some c) : Reaches r shape c
  | there {shape : Shape} {name : String} {c d : ClassModel} {p : Property}
      (hs : shape.leaf = .ofClass name) (hc : r.get? name = some c) (hp : p ∈ c.properties)
      (h : Reaches r p.shape d) : Reaches r shape d

theorem Reaches.mem {shape : Shape} {d : ClassModel} (h : r.Reaches shape d) : d ∈ r.classes := by
  induction h with
  | here _ hc => exact mem_of_get? hc
  | there _ _ _ _ ih => exact ih

/-- Only what a shape holds in the end decides. -/
theorem Reaches.of_leaf {shape shape' : Shape} {d : ClassModel} (h : r.Reaches shape d)
    (hl : shape'.leaf = shape.leaf) : r.Reaches shape' d := by
  cases h with
  | here hs hc => exact .here (hl.trans hs) hc
  | there hs hc hp h => exact .there (hl.trans hs) hc hp h

theorem Reaches.array {element : Shape} {d : ClassModel} (h : r.Reaches element d) :
    r.Reaches (.array element) d :=
  h.of_leaf rfl

theorem Reaches.map {element : Shape} {d : ClassModel} (h : r.Reaches element d) :
    r.Reaches (.map element) d :=
  h.of_leaf rfl

end Registry

namespace Machine

/-! ## Heaps that grow -/

namespace Heap

theorem object?_append {heap : Heap} {address : Nat} {o : Object}
    (h : heap.object? address = some o) (ext : Heap) :
    object? (heap ++ ext) address = some o := by
  unfold object? at h ⊢
  cases hc : heap[address]? with
  | none => simp [hc] at h
  | some cell => rw [List.getElem?_append_left (List.getElem?_eq_some_iff.1 hc).1, h]

/-- A new object lies at the end. -/
theorem object?_append_singleton (heap : Heap) (o : Object) :
    object? (heap ++ [⟨o, 0⟩]) heap.length = some o := by
  simp [object?]

end Heap

/-! ## What values stand for -/

/-- The tree of a shape that a value in a heap stands for. -/
inductive Denotes (r : Registry) (heap : Heap) : Shape → Value → Json → Prop where
  | null {shape : Shape} (h : shape.isReferenceType = true) : Denotes r heap shape .null .null
  | scalar {p : Primitive} {v : Json} (h : p.accepts v = true) :
      Denotes r heap (.scalar p) (.leaf v) v
  | object {name : String} {c : ClassModel} {address : Nat} {properties : Fields Value}
      {fields : List (String × Json)} (value : Property → Value) (hc : r.get? name = some c)
      (ho : heap.object? address = some (.instanceOf name properties))
      (hv : ∀ p ∈ c.properties, properties.get? p.name = some (value p))
      (hd : ∀ p ∈ c.properties,
        Denotes r heap p.shape (value p) ((Json.object fields).part p.jsonName)) :
      Denotes r heap (.ofClass name) (.ref address) (.object fields)
  | list {element : Shape} {address : Nat} (items : List (Value × Json))
      (ho : heap.object? address = some (.list (items.map Prod.fst)))
      (hd : ∀ q ∈ items, Denotes r heap element q.1 q.2) :
      Denotes r heap (.array element) (.ref address) (.list (items.map Prod.snd))
  | map {element : Shape} {address : Nat} (entries : Fields (Value × Json))
      (hk : entries.keys.Nodup)
      (ho : heap.object? address = some (.dictionary (entries.mapValues Prod.fst)))
      (hd : ∀ e ∈ entries, Denotes r heap element e.2.1 e.2.2) :
      Denotes r heap (.map element) (.ref address) (.object (entries.mapValues Prod.snd))

variable {r : Registry}

/-- New objects do not change what a value stands for. -/
theorem Denotes.append {heap : Heap} {shape : Shape} {v : Value} {a : Json}
    (h : Denotes r heap shape v a) (ext : Heap) : Denotes r (heap ++ ext) shape v a := by
  induction h with
  | null h => exact .null h
  | scalar h => exact .scalar h
  | object value hc ho hv _ ih => exact .object value hc (Heap.object?_append ho ext) hv ih
  | list items ho _ ih => exact .list items (Heap.object?_append ho ext) ih
  | map entries hk ho _ ih => exact .map entries hk (Heap.object?_append ho ext) ih

theorem Denotes.eq_null {heap : Heap} {shape : Shape} {a : Json} (h : Denotes r heap shape .null a) :
    a = .null := by
  cases h
  rfl

/-- A property of an object stands for a part of what the object stands for. -/
theorem Denotes.part {heap : Heap} {name : String} {c : ClassModel} {address : Nat}
    {properties : Fields Value} {a : Json} {p : Property} {v : Value}
    (h : Denotes r heap (.ofClass name) (.ref address) a) (hc : r.get? name = some c)
    (ho : heap.object? address = some (.instanceOf name properties)) (hp : p ∈ c.properties)
    (hv : properties.get? p.name = some v) : Denotes r heap p.shape v (a.part p.jsonName) := by
  cases h with
  | object value hc' ho' hvalue hd =>
    cases hc.symm.trans hc'
    cases ho.symm.trans ho'
    cases hv.symm.trans (hvalue p hp)
    exact hd p hp

end Machine

/-! ## A class that leads to another one -/

/-- A schema for shelves with a box, and boxes in boxes. -/
def shelfSchema : Schema := {
  definitions := [
    ("Box", (singleSource "Box" "inner" { reference := some "#/definitions/Box" }).schema),
    ("Shelf", (singleSource "Shelf" "content" { reference := some "#/definitions/Box" }).schema)] }

/-- Hints that name the property of boxes. -/
def boxHints (member : String) : HintTable := ⟨[("Box.inner", [.propertyName member])]⟩

theorem boxHints_comparer? (member schemaId property : String) :
    (boxHints member).comparer? schemaId property = none := by
  rw [HintTable.comparer?, HintTable.forProperty, HintTable.get, boxHints, Fields.get?_cons,
    Fields.get?_nil]
  split <;> rfl

/-- Boxes in boxes, by a property of a given name. -/
def boxClass (member : String) : ClassModel where
  schemaId := "Box"
  name := "Box"
  description := none
  baseTypes := []
  properties := [Registry.trees.property "inner" member (.ofClass "Box")]

/-- Shelves with a box. -/
def shelfClass : ClassModel where
  schemaId := "Shelf"
  name := "Shelf"
  description := none
  baseTypes := []
  properties := [Registry.trees.property "content" "Content" (.ofClass "Box")]

/-- A registry of both. -/
def Registry.shelves (member : String) : Registry := .ofClasses [boxClass member, shelfClass]

theorem build_shelfSchema (member : String) :
    Registry.build shelfSchema (boxHints member) "Root" = .ok (Registry.shelves member) := by
  have hbox {site : Site} (hfree : (boxHints member).dictionary? site.schemaId site.property = none) :
      (shelfSchema.scope (boxHints member)).propertyShape site
        { reference := some "#/definitions/Box" } = ⟨.ofClass "Box", [], []⟩ := by
    rw [Scope.propertyShape, Schema.scope, hfree]
    exact (Scope.classify_eq_onward _ _).trans rfl
  have hnoted : (shelfSchema.classSources "Root").map (shelfSchema.scope (boxHints member)).noted =
      [{ value := boxClass member }, { value := shelfClass }] :=
    congrArg₂ (fun m n => [m, n]) (Scope.noted_singleSource (hbox rfl))
      (Scope.noted_singleSource (hbox rfl))
  have hnames : ["Box", "Shelf"].Pairwise (· < ·) := by decide
  exact Registry.build_of_sorted hnoted hnames (by simp)

/-- A shelf with a box in which there is nothing. -/
def Registry.aShelf : Json := .object [("content", .object [])]

namespace Machine

/-- A heap with two such shelves. -/
def shelfHeap (member : String) : Heap := [
  ⟨.instanceOf "Box" [(member, .null)], 0⟩, ⟨.instanceOf "Shelf" [("Content", .ref 0)], 0⟩,
  ⟨.instanceOf "Box" [(member, .null)], 0⟩, ⟨.instanceOf "Shelf" [("Content", .ref 2)], 0⟩]

theorem denotes_shelf {member : String} {heap : Heap} {box shelf : Nat}
    (hbox : heap.object? box = some (.instanceOf "Box" [(member, .null)]))
    (hshelf : heap.object? shelf = some (.instanceOf "Shelf" [("Content", .ref box)])) :
    Denotes (Registry.shelves member) heap (.ofClass "Shelf") (.ref shelf) Registry.aShelf := by
  refine .object (fun _ => .ref box) rfl hshelf (fun p hp => ?_) fun p hp => ?_
  · cases List.mem_singleton.1 hp
    rfl
  · cases List.mem_singleton.1 hp
    refine .object (fun _ => .null) rfl hbox (fun q hq => ?_) fun q hq => ?_
    · cases List.mem_singleton.1 hq
      exact Fields.get?_cons_self ..
    · cases List.mem_singleton.1 hq
      exact .null rfl

end Machine

end Classwright
