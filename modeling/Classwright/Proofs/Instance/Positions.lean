import Classwright.Json.Fault
import Classwright.Proofs.Instance.Closed

/-!
# Which values are visited

The declared shapes say at which positions of a value there are instances of classes, through any nesting
of arrays and maps and through the properties of the instances above. `Registry.classAt?` reads this off
a path: it takes one step at a time, from a value and its shape to a part and the shape of the part.

A visitor replaces values from the inside out and knows nothing of paths. What it does to a value is
described by a tagged value, in which a tag stands around each part that is replaced.

* **`tagsAt_tagged`** — by induction on the path: the tags at a position are the class that the shapes
  declare there, if the value there is not `null`.
* **`content_tagged`** — without its tags the tagged value is the value itself.
* **`rewritten_tagged`** — by induction on the value: a visit replaces each tagged part once and leaves
  everything else as it is, whatever the substitution does.
-/

namespace Classwright

/-! ## Tagged values -/

/-- A value with tags around some of its parts. A tag is the name of a class. -/
inductive Tagged where
  /-- A value with no tag in it. -/
  | plain (value : Json)
  | tag (name : String) (inner : Tagged)
  | list (items : List Tagged)
  | object (fields : List (String × Tagged))

/-- One step from a value to a part of it. A step without a key leads nowhere. -/
def Json.at? (v : Json) : Json.Step → Option Json
  | .key key => v.field? key
  | .index i => v.items[i]?
  | .unnamed => none

namespace Tagged

section

variable {β : Type} (plain : Json → β) (tag : String → β → β) (list : List β → β)
  (object : Fields β → β)

mutual

/-- A result from the results for the parts. -/
def fold : Tagged → β
  | .plain v => plain v
  | .tag name inner => tag name (fold inner)
  | .list items => list (foldItems items)
  | .object fields => object (foldFields fields)

/-- The results for the items of a list. -/
def foldItems : List Tagged → List β
  | [] => []
  | t :: rest => fold t :: foldItems rest

/-- The results for the fields of an object. -/
def foldFields : List (String × Tagged) → Fields β
  | [] => []
  | (key, t) :: rest => (key, fold t) :: foldFields rest

end

theorem fold_plain (v : Json) : fold plain tag list object (.plain v) = plain v := rfl

theorem fold_tag (name : String) (inner : Tagged) :
    fold plain tag list object (.tag name inner) = tag name (fold plain tag list object inner) := rfl

theorem foldItems_eq_map (items : List Tagged) :
    foldItems plain tag list object items = items.map (fold plain tag list object) := by
  induction items with
  | nil => rfl
  | cons t rest ih => exact congrArg (_ :: ·) ih

theorem foldFields_eq_mapValues (fields : List (String × Tagged)) :
    foldFields plain tag list object fields =
      Fields.mapValues (fold plain tag list object) fields := by
  induction fields with
  | nil => rfl
  | cons field rest ih => exact congrArg (_ :: ·) ih

theorem fold_list (items : List Tagged) : fold plain tag list object (.list items) =
    list (items.map (fold plain tag list object)) :=
  congrArg list (foldItems_eq_map plain tag list object items)

theorem fold_object (fields : List (String × Tagged)) :
    fold plain tag list object (.object fields) =
      object (Fields.mapValues (fold plain tag list object) fields) :=
  congrArg object (foldFields_eq_mapValues plain tag list object fields)

end

/-- The value in which each tagged part is replaced by what `f` makes of it, the parts below it first. -/
def replaced (f : String → Json → Json) : Tagged → Json :=
  fold id f (fun items => .list items) fun fields => .object fields

/-- The value without the tags. -/
def content : Tagged → Json := replaced fun _ v => v

/-- All tags in a value, those below a tag before it. -/
def names : Tagged → List String :=
  fold (fun _ => []) (fun name below => below ++ [name]) List.flatten
    fun fields => (fields.map Prod.snd).flatten

/-- The tags around a value, the outermost first. -/
def tags : Tagged → List String
  | .tag name inner => name :: inner.tags
  | _ => []

/-- One step from a tagged value to a part of it. Tags around the value are passed over. -/
def at? : Tagged → Json.Step → Option Tagged
  | .plain v, step => (v.at? step).map .plain
  | .tag _ inner, step => inner.at? step
  | .list items, .index i => items[i]?
  | .object fields, .key key => Fields.get? fields key
  | _, _ => none

/-- The tags around the part that a path leads to. -/
def tagsAt (t : Tagged) : List Json.Step → List String
  | [] => t.tags
  | step :: path => ((t.at? step).map fun part => part.tagsAt path).getD []

variable (f : String → Json → Json)

@[simp] theorem replaced_plain (v : Json) : (plain v).replaced f = v := by
  rw [replaced, fold_plain, id]

@[simp] theorem replaced_tag (name : String) (t : Tagged) :
    (tag name t).replaced f = f name (t.replaced f) := by
  rw [replaced, fold_tag]

@[simp] theorem replaced_list (items : List Tagged) :
    (list items).replaced f = .list (items.map (replaced f)) := by
  rw [replaced, fold_list]

@[simp] theorem replaced_object (fields : List (String × Tagged)) :
    (object fields).replaced f = .object (Fields.mapValues (replaced f) fields) := by
  rw [replaced, fold_object]

@[simp] theorem names_plain (v : Json) : (plain v).names = [] := by
  rw [names, fold_plain]

@[simp] theorem names_tag (name : String) (t : Tagged) : (tag name t).names = t.names ++ [name] := by
  rw [names, fold_tag]

@[simp] theorem names_list (items : List Tagged) : (list items).names = items.flatMap names := by
  rw [names, fold_list, List.flatMap_def]

@[simp] theorem names_object (fields : List (String × Tagged)) :
    (object fields).names = fields.flatMap fun e => e.2.names := by
  rw [names, fold_object, Fields.mapValues, List.map_map, List.flatMap_def]
  rfl

/-- Puts a tag around a value, if there is one. -/
def around : Option String → Tagged → Tagged
  | some name, t => tag name t
  | none, t => t

theorem tags_around (name? : Option String) (t : Tagged) :
    (around name? t).tags = name?.toList ++ t.tags := by
  cases name? <;> rfl

theorem at?_around (name? : Option String) (t : Tagged) (step : Json.Step) :
    (around name? t).at? step = t.at? step := by
  cases name? <;> rfl

end Tagged

/-! ## Positions -/

namespace Shape

/-- The class of which a shape declares a value to be an instance. `null` is none. -/
def classOf? (shape : Shape) (v : Json) : Option String :=
  match shape with
  | ofClass name => if v.isNull then none else some name
  | _ => none

/-- The declared shape of the items of a list. -/
def item : Shape → Shape
  | array element => element
  | _ => untyped

end Shape

namespace Registry

variable (r : Registry)

/-- The declared shape of the value of a field. -/
def fieldShape : Shape → String → Shape
  | .ofClass name, key => ((r.get? name).map (·.shapeOf key)).getD .untyped
  | .map element, _ => element
  | _, _ => .untyped

/-- The declared shape of a part. -/
def shapeAt (shape : Shape) : Json.Step → Shape
  | .key key => r.fieldShape shape key
  | .index _ => shape.item
  | .unnamed => .untyped

/-- The class of which there is an instance where a path leads to, by the declared shapes. -/
def classAt? (shape : Shape) (v : Json) : List Json.Step → Option String
  | [] => shape.classOf? v
  | step :: path => (v.at? step).bind fun part => classAt? (r.shapeAt shape step) part path

/-- What is inside the tags around a value. -/
def insideStep (v : Json) (items : List (Shape → Tagged)) (fields : Fields (Shape → Tagged))
    (shape : Shape) : Tagged :=
  match v with
  | .list _ => .list (items.map fun item => item shape.item)
  | .object _ => .object (fields.mapEntries fun key field => field (r.fieldShape shape key))
  | v => .plain v

/-- One step of `tagged`. -/
def tagStep (v : Json) (items : List (Shape → Tagged)) (fields : Fields (Shape → Tagged))
    (shape : Shape) : Tagged :=
  .around (shape.classOf? v) (r.insideStep v items fields shape)

/-- A value with a tag around each instance of a class in it. -/
def tagged : Json → Shape → Tagged := Json.walk r.tagStep

/-- A value with a tag around each instance below it. -/
def inside (v : Json) (shape : Shape) : Tagged :=
  r.insideStep v (v.items.map r.tagged) (Fields.mapValues r.tagged v.fields) shape

theorem tagged_eq (v : Json) (shape : Shape) :
    r.tagged v shape = .around (shape.classOf? v) (r.inside v shape) :=
  congrFun (Json.walk_eq r.tagStep v) shape

theorem inside_list (items : List Json) (shape : Shape) :
    r.inside (.list items) shape = .list (items.map fun v => r.tagged v shape.item) := by
  rw [inside, insideStep, Json.items, List.map_map]
  rfl

theorem inside_object (fields : List (String × Json)) (shape : Shape) :
    r.inside (.object fields) shape =
      .object (Fields.mapEntries (fun key v => r.tagged v (r.fieldShape shape key)) fields) := by
  rw [inside, insideStep, Json.fields, Fields.mapEntries, Fields.mapValues, List.map_map]
  rfl

theorem tagged_array (items : List Json) (element : Shape) :
    r.tagged (.list items) (.array element) = .list (items.map fun v => r.tagged v element) := by
  rw [tagged_eq]
  exact r.inside_list items (.array element)

theorem tagged_map (fields : List (String × Json)) (element : Shape) :
    r.tagged (.object fields) (.map element) =
      .object (Fields.mapValues (fun v => r.tagged v element) fields) := by
  rw [tagged_eq]
  exact r.inside_object fields (.map element)

theorem tags_inside (v : Json) (shape : Shape) : (r.inside v shape).tags = [] := by
  cases v <;> rfl

/-- One step leads to the tagged part. -/
theorem at?_tagged (v : Json) (shape : Shape) (step : Json.Step) :
    (r.tagged v shape).at? step =
      (v.at? step).map fun part => r.tagged part (r.shapeAt shape step) := by
  rw [tagged_eq, Tagged.at?_around]
  cases v with
  | list items =>
    rw [inside_list]
    cases step with
    | index i => exact List.getElem?_map
    | key key => rfl
    | unnamed => rfl
  | object fields =>
    rw [inside_object]
    cases step with
    | key key => exact Fields.get?_mapEntries _ fields key
    | index i => rfl
    | unnamed => rfl
  | _ => cases step <;> rfl

/-- **Where the tags are.** -/
theorem tagsAt_tagged (v : Json) (shape : Shape) (path : List Json.Step) :
    (r.tagged v shape).tagsAt path = (r.classAt? shape v path).toList := by
  induction path generalizing v shape with
  | nil =>
    rw [Tagged.tagsAt, tagged_eq, Tagged.tags_around, tags_inside, List.append_nil]
    rfl
  | cons step path ih =>
    -- both sides take the same step, to the same part with the same shape
    rw [Tagged.tagsAt, at?_tagged, classAt?]
    cases v.at? step with
    | none => rfl
    | some part => exact ih part (r.shapeAt shape step)

/-! ## What a visit does -/

section

variable {r} {f : String → Json → Json} {v : Json} {shape : Shape}

theorem replaced_inside_eq_self (hitems : ∀ x ∈ v.items, (r.tagged x shape.item).replaced f = x)
    (hfields : ∀ e ∈ v.fields, (r.tagged e.2 (r.fieldShape shape e.1)).replaced f = e.2) :
    (r.inside v shape).replaced f = v := by
  cases v with
  | list items =>
    rw [inside_list, Tagged.replaced_list, List.map_map]
    exact congrArg Json.list ((List.map_congr_left hitems).trans (List.map_id' items))
  | object fields =>
    rw [inside_object, Tagged.replaced_object, Fields.mapValues_mapEntries]
    exact congrArg Json.object (Fields.mapEntries_eq_self hfields)
  | _ => rfl

theorem names_inside : (r.inside v shape).names =
    (v.items.flatMap fun x => (r.tagged x shape.item).names) ++
      v.fields.flatMap fun e => (r.tagged e.2 (r.fieldShape shape e.1)).names := by
  cases v with
  | list items =>
    rw [inside_list, Tagged.names_list, List.flatMap_map]
    exact (List.append_nil _).symm
  | object fields =>
    rw [inside_object, Tagged.names_object, Fields.mapEntries, List.flatMap_map]
    rfl
  | _ => rfl

/-- **Without its tags a tagged value is the value itself.** -/
theorem content_tagged : (r.tagged v shape).content = v := by
  induction v using Json.ind_parts generalizing shape with
  | step v items fields _ =>
    -- whether there is a tag around the value does not matter, only what is inside it
    have hinside : (r.inside v shape).content = v :=
      replaced_inside_eq_self (fun x hx => items x hx) fun e he => fields e he
    rw [tagged_eq]
    cases shape.classOf? v with
    | none => exact hinside
    | some name =>
      rw [Tagged.around, Tagged.content, Tagged.replaced_tag]
      exact hinside

/-- A value stays as it is if nothing in it is tagged. -/
theorem replaced_tagged_eq_self (hclass : shape.classOf? v = none)
    (hitems : ∀ x ∈ v.items,
      (r.tagged x shape.item).replaced f = x ∧ (r.tagged x shape.item).names = [])
    (hfields : ∀ e ∈ v.fields, (r.tagged e.2 (r.fieldShape shape e.1)).replaced f = e.2 ∧
      (r.tagged e.2 (r.fieldShape shape e.1)).names = []) :
    (r.tagged v shape).replaced f = v ∧ (r.tagged v shape).names = [] := by
  rw [tagged_eq, hclass, Tagged.around, names_inside]
  refine ⟨replaced_inside_eq_self (fun x hx => (hitems x hx).1) fun e he => (hfields e he).1, ?_⟩
  rw [List.append_eq_nil_iff, List.flatMap_eq_nil_iff, List.flatMap_eq_nil_iff]
  exact ⟨fun x hx => (hitems x hx).2, fun e he => (hfields e he).2⟩

theorem replaced_tagged_of_no_class (h : shape.containsClass = false) :
    (r.tagged v shape).replaced f = v ∧ (r.tagged v shape).names = [] := by
  induction v using Json.ind_parts generalizing shape with
  | step v items fields _ =>
    cases shape with
    | ofClass name => cases h
    | scalar p =>
      exact replaced_tagged_eq_self rfl (fun x hx => items x hx rfl) fun e he => fields e he rfl
    | array element =>
      exact replaced_tagged_eq_self rfl (fun x hx => items x hx h) fun e he => fields e he rfl
    | map element =>
      exact replaced_tagged_eq_self rfl (fun x hx => items x hx rfl) fun e he => fields e he h

/-- What does not fit its shape has no tags. -/
theorem replaced_tagged_of_not_opens (h : shape.comparison.opens v v = false) :
    (r.tagged v shape).replaced f = v ∧ (r.tagged v shape).names = [] := by
  have huntyped (x : Json) :
      (r.tagged x .untyped).replaced f = x ∧ (r.tagged x .untyped).names = [] :=
    replaced_tagged_of_no_class rfl
  cases shape with
  | scalar p => exact replaced_tagged_of_no_class rfl
  | ofClass name =>
    cases v with
    | null =>
      exact replaced_tagged_eq_self rfl (fun x _ => huntyped x) fun e he => absurd he List.not_mem_nil
    | _ => cases h
  | array element =>
    refine replaced_tagged_eq_self rfl (fun x hx => ?_) fun e _ => huntyped e.2
    cases v with
    | list items => cases h
    | _ => cases hx
  | map element =>
    refine replaced_tagged_eq_self rfl (fun x _ => huntyped x) fun e he => ?_
    cases v with
    | object fields => cases h
    | _ => cases he

/-- Of an instance only the fields are looked into. -/
theorem replaced_inside_class {name : String} :
    (r.inside v (.ofClass name)).replaced f = v.mapFields fun key x =>
      (r.tagged x (r.fieldShape (.ofClass name) key)).replaced f := by
  cases v with
  | list items =>
    exact replaced_inside_eq_self (fun x _ => (replaced_tagged_of_no_class rfl).1)
      fun e he => absurd he List.not_mem_nil
  | object fields =>
    rw [inside_object, Tagged.replaced_object, Fields.mapValues_mapEntries]
    rfl
  | _ => rfl

theorem names_inside_class {name : String} : (r.inside v (.ofClass name)).names =
    v.fields.flatMap fun e => (r.tagged e.2 (r.fieldShape (.ofClass name) e.1)).names := by
  rw [names_inside, List.flatMap_eq_nil_iff.2 fun x _ =>
    (replaced_tagged_of_no_class (f := fun _ v => v) rfl).2, List.nil_append]

/-- **What a visit does.** It replaces each tagged part, and it visits as often as there are tags. -/
theorem rewritten_tagged (hr : r.Closed) (hk : r.Keyed) (hv : r.VisitsByShape)
    (hd : ∀ c ∈ r.classes, c.DistinctKeys) (hkeys : v.distinctKeys = true) (hs : shape.classNames ⊆ r.entries.keys) :
    (r.rewritten f v shape).value = (r.tagged v shape).replaced f ∧
      (r.rewritten f v shape).visits.Perm (r.tagged v shape).names := by
  induction v using Json.ind_parts generalizing shape with
  | step v items fields _ =>
    cases ho : shape.comparison.opens v v with
    | false =>
      obtain ⟨hvalue, hnames⟩ := replaced_tagged_of_not_opens (r := r) (f := f) ho
      rw [rewritten_eq (visitValue_of_not_opens ho), hvalue, hnames]
      exact ⟨rfl, .refl _⟩
    | true =>
      cases shape with
      | scalar p => cases ho
      | ofClass name =>
        -- what is not `null` is an instance, object or not, and is tagged as such
        have hnull := (Comparison.not_null_of_opens ho).1
        obtain ⟨c, hc⟩ := exists_get? (hs List.mem_cons_self)
        have hclass : (Shape.ofClass name).classOf? v = some name := by
          rw [Shape.classOf?, hnull]
          rfl
        have hshape (key) : r.fieldShape (.ofClass name) key = c.shapeOf key := by
          rw [fieldShape, hc]
          rfl
        obtain ⟨hfields, hvalues⟩ := Json.distinctKeys_fields hkeys
        have hfield (e) (he : e ∈ v.fields) :=
          fields e he (hvalues e he) (hr.shapeOf (mem_of_get? hc) e.1)
        obtain ⟨visits, hvisit, hperm⟩ := visitValue_class_eq hk hc (hd c (mem_of_get? hc))
          (hv c (mem_of_get? hc)) hnull hfields
          fun p hp x => rewrites_of_closed (f := f) hr (hr c (mem_of_get? hc) p hp).1
        rw [rewritten_eq hvisit, tagged_eq, hclass, Tagged.around, Tagged.replaced_tag,
          Tagged.names_tag, replaced_inside_class, names_inside_class]
        simp only [hshape]
        refine ⟨congrArg (f name) (Json.mapFields_congr fun e he => (hfield e he).1), ?_⟩
        -- the visits come in the order of the properties, the tags in that of the fields
        refine .append_right [name] (hperm.trans ?_)
        exact List.Perm.flatMap_left _ fun e he => (hfield e he).2
      | array element =>
        obtain ⟨xs, -, rfl, -⟩ := Comparison.lists_of_opens ho
        have helement : element.classNames ⊆ r.entries.keys := hs
        have hitem (x) (hx : x ∈ xs) := items x hx (Json.distinctKeys_list.1 hkeys x hx) helement
        rw [rewritten_eq (visitValue_array fun x _ => rewrites_of_closed hr helement), tagged_array,
          Tagged.replaced_list, Tagged.names_list, List.map_map, List.flatMap_map]
        refine ⟨congrArg Json.list ?_, List.Perm.flatMap_left xs fun x hx => (hitem x hx).2⟩
        exact List.map_congr_left fun x hx => (hitem x hx).1
      | map element =>
        obtain ⟨xs, -, rfl, -⟩ := Comparison.objects_of_opens ho
        have helement : element.classNames ⊆ r.entries.keys := hs
        have hentry (e) (he : e ∈ xs) :=
          fields e he ((Json.distinctKeys_object.1 hkeys).2 e he) helement
        rw [rewritten_eq (visitValue_map fun e _ => rewrites_of_closed hr helement), tagged_map,
          Tagged.replaced_object, Tagged.names_object, Fields.mapValues, Fields.mapValues,
          Fields.mapValues, List.map_map, List.flatMap_map]
        refine ⟨congrArg Json.object ?_, List.Perm.flatMap_left xs fun e he => (hentry e he).2⟩
        exact List.map_congr_left fun e he => congrArg (Prod.mk e.1) (hentry e he).1

/-- **What a visit of an instance does**, with any substitution. -/
theorem visit_eq_replaced (hr : r.Closed) (hk : r.Keyed) (hv : r.VisitsByShape)
    (hd : ∀ c ∈ r.classes, c.DistinctKeys) {name : String} (hname : name ∈ r.entries.keys)
    (hnull : v.isNull = false) (hkeys : v.distinctKeys = true)
    (f : String → Json → Json) :
    ∃ visits, r.visit f name v = .ok ⟨(r.tagged v (.ofClass name)).replaced f, visits⟩ ∧
      visits.Perm (r.tagged v (.ofClass name)).names := by
  have hs : (Shape.ofClass name).classNames ⊆ r.entries.keys :=
    List.cons_subset.2 ⟨hname, List.nil_subset _⟩
  obtain ⟨hvalue, hvisits⟩ := rewritten_tagged (f := f) hr hk hv hd hkeys hs
  refine ⟨_, ?_, hvisits⟩
  rw [visit, hnull, ← hvalue]
  exact rewrites_of_closed hr hs

end

end Registry

/-- An instance under the name of its class. -/
def Json.tag (className : String) (v : Json) : Json :=
  .object [("class", .text className), ("node", v)]

namespace Registry

/-- **A visit reaches each instance once, and nothing else.** In a closed registry, whose properties can
be told apart, a substitution that tags instances leaves a value with tags: exactly one at each position
at which the shapes declare a class and the value is not `null`, with the name of that class, and none
anywhere else. Without the tags it is the value that was visited. It was called once for each tag. A
substitution that changes nothing gives the value back.

Classes stand under their own names and properties are marked for visits by their shapes. Every
registry that is built is like this (`keyed_of_build`, `visitsByShape_of_build`). -/
theorem visit_tags_instances {r : Registry} (hr : r.Closed) (hk : r.Keyed) (hv : r.VisitsByShape)
    (hd : ∀ c ∈ r.classes, c.DistinctKeys) {name : String} (hname : name ∈ r.entries.keys)
    {node : Json} (hnull : node.isNull = false) (hkeys : node.distinctKeys = true) :
    ∃ t : Tagged,
      (∃ visits, r.visit Json.tag name node = .ok ⟨t.replaced Json.tag, visits⟩ ∧
        visits.Perm t.names) ∧
      (∀ path, t.tagsAt path = (r.classAt? (.ofClass name) node path).toList) ∧
      t.content = node ∧
      ∃ visits, r.visit (fun _ v => v) name node = .ok ⟨node, visits⟩ := by
  obtain ⟨visits, hvisit, -⟩ := visit_eq_replaced hr hk hv hd hname hnull hkeys fun _ v => v
  have hcontent : (r.tagged node (.ofClass name)).content = node := content_tagged
  refine ⟨r.tagged node (.ofClass name), visit_eq_replaced hr hk hv hd hname hnull hkeys Json.tag,
    r.tagsAt_tagged node _, hcontent, visits, ?_⟩
  rw [hvisit, ← Tagged.content, hcontent]

theorem visit_tags_instances_looseTree :
    ∃ t : Tagged, t.content = looseTree ∧
      t.tagsAt [] = ["Tree"] ∧ t.tagsAt [.key "below"] = [] ∧
      t.tagsAt [.key "below", .index 0] = ["Tree"] ∧ t.tagsAt [.key "below", .index 1] = ["Tree"] ∧
      t.tagsAt [.key "marks"] = [] ∧ t.tagsAt [.key "crown"] = [] ∧
      ∃ visits, trees.visit Json.tag "Tree" looseTree = .ok ⟨t.replaced Json.tag, visits⟩ := by
  have hd := distinctKeys_of_build build_treeSchema distinctNames_treeSchema
  have hname : "Tree" ∈ trees.entries.keys := by decide
  have hkeys : looseTree.distinctKeys = true := by decide
  obtain ⟨t, ⟨visits, hvisit, -⟩, htags, hcontent, -⟩ :=
    visit_tags_instances closed_trees (keyed_of_build build_treeSchema)
      (visitsByShape_of_build build_treeSchema) hd hname rfl hkeys
  exact ⟨t, hcontent, htags _, htags _, htags _, htags _, htags _, htags _, visits, hvisit⟩

end Registry

end Classwright
