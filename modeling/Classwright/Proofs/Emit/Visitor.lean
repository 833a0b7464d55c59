import Classwright.Proofs.Emit.VisitValues

/-!
# Generated visitors replace what the evaluator replaces

The method of a visitor for a class, run on an object in the heap, changes the object in place. What
the object stands for afterwards is what the evaluator hands to its substitution.

* **`executes_visitProperties`** — the properties of an instance are visited one after another.
* **`yields_visitInstance`** is the method of an instance, and **`visitRefines_object`** is what comes
  of it in the place of the instance, once it is replaced.
* **`Owns.visitRefines`** — the induction over what a value stands for.
-/

namespace Classwright.Machine

open Code Emit

variable {prog : Program} {f : String → Json → Json} {base : Heap}

/-! ## Instances -/

section

variable {this : Value} {s : State} {address : Nat} {name : String} {c : ClassModel}
  {parts : List (Property × Part)} {initial : Heap} {done : List ((Property × Part) × Part)}
  {rest : List (Property × Part)}

/-- An instance holds the values of its properties under their names. -/
def holdsProperties (className : String) (values : List ((Property × Part) × Value)) (o : Object) :
    Prop :=
  ∃ properties : Fields Value, o = .instanceOf className properties ∧
    ∀ e ∈ values, properties.get? e.1.1.name = some e.2

theorem node_not_mem_visitLocals (shape : Shape) (level : Nat) : "node" ∉ visitLocals shape level := by
  have hne (base : String) : "node" ≠ numbered base level := ne_numbered (by decide) base level
  cases shape with
  | scalar p => exact List.not_mem_nil
  | ofClass name => exact List.not_mem_nil
  | array element => exact fun h => hne _ (List.mem_singleton.1 h)
  | map element => exact fun h => hne _ (List.mem_singleton.1 h)

/-- The statements for one property. -/
theorem executes_visitProperty {x : Property × Part}
    (hd : ∀ q ∈ parts, Owns prog.registry .plain base q.2)
    (h : Visiting prog.registry f address parts Prod.snd (holdsProperties name) initial s.heap done
      (x :: rest))
    (hx : VisitRefines prog f base x.2)
    (hbase : ∀ y ∈ Part.allCells (parts.map Prod.snd), initial.object? y = base.object? y)
    (hnode : Fields.get? s.locals "node" = some (.ref address)) :
    ∃ heap q, Visiting prog.registry f address parts Prod.snd (holdsProperties name) initial heap
        (done ++ [(x, q)]) rest ∧
      Executes prog this s (visitStatements (.member (.ident "node") x.1.name) x.2.shape 0) .next
        { s with heap } := by
  obtain ⟨o, ho, properties, rfl, hvalues⟩ := h.object
  have hget : properties.get? x.1.name = some x.2.value :=
    hvalues (x, x.2.value) (List.mem_append_right _ List.mem_cons_self)
  have hself : properties.insert x.1.name x.2.value = properties := Fields.insert_self hget
  have hplace : Place s.heap x.2 address fun w =>
      .instanceOf name (properties.insert x.1.name w) := by
    refine ⟨?_, h.outside, fun hw => ?_⟩
    · rw [hself, ho]
    · rw [hself]
      exact Object.keeps_insertProperty hget hw
  have hlocal : Stable prog this s (visitLocals x.2.shape 0) (· ∈ x.2.cells) (.ident "node")
      (.ref address) := .localOf hnode (node_not_mem_visitLocals _ _)
  have hslot : Slot prog this s x.2 0 (.member (.ident "node") x.1.name) address fun w =>
      .instanceOf name (properties.insert x.1.name w) := {
    hplace with
    reads := hlocal.member h.outside ho hget
    assigns := fun _ _ _ _ hheap he =>
      yields_assignMember hlocal.evaluates he (hheap.trans ho) }
  refine h.turn hx hbase hslot fun _ w _ hreplaces => ⟨_, rfl, ?_⟩
  have hother (e) (he : e ∈ held done ++ rest.map fun y => (y, y.2.value)) :
      (properties.insert x.1.name w).get? e.1.1.name = some e.2 := by
    have hold : properties.get? e.1.1.name = some e.2 := by
      refine hvalues e ?_
      rcases List.mem_append.1 he with hdone | hrest
      · exact List.mem_append_left _ hdone
      · exact List.mem_append_right _ (List.mem_cons_of_mem _ hrest)
    rw [Fields.get?_insert]
    split
    · next hname =>
      -- a property of the same name has the same value, so this is none that leads to an object
      have hvalue : e.2 = x.2.value := Option.some.inj ((hname ▸ hold).symm.trans hget)
      have hleaf (y : Nat) : x.2.value ≠ .ref y := fun hy =>
        h.value_ne hd hy e he (hvalue.trans hy)
      rw [hvalue, hreplaces.value_eq (hd x (h.mem_of_rest List.mem_cons_self)) hleaf]
    · exact hold
  intro e he
  rcases List.mem_append.1 he with hdone | hrest
  · exact hother e (List.mem_append_left _ hdone)
  · rcases List.mem_cons.1 hrest with rfl | hrest
    · rw [Fields.get?_insert, if_pos rfl]
    · exact hother e (List.mem_append_right _ hrest)

/-- **All properties one after another.** -/
theorem executes_visitProperties (hd : ∀ q ∈ parts, Owns prog.registry .plain base q.2)
    (h : Visiting prog.registry f address parts Prod.snd (holdsProperties name) initial s.heap done
      rest)
    (ih : ∀ q ∈ parts, VisitRefines prog f base q.2)
    (hbase : ∀ y ∈ Part.allCells (parts.map Prod.snd), initial.object? y = base.object? y)
    (hnode : Fields.get? s.locals "node" = some (.ref address)) :
    ∃ heap done, Visiting prog.registry f address parts Prod.snd (holdsProperties name) initial heap
        done [] ∧
      Executes prog this s (rest.flatMap fun x =>
        visitStatements (.member (.ident "node") x.1.name) x.2.shape 0) .next { s with heap } := by
  induction rest generalizing s done with
  | nil => exact ⟨s.heap, done, h, .nil⟩
  | cons x rest ihr =>
    obtain ⟨heap, q, h', hrun⟩ := executes_visitProperty hd h
      (ih x (h.mem_of_rest List.mem_cons_self)) hbase hnode
    obtain ⟨heap', done', h'', hrest⟩ := ihr (s := { s with heap }) h' hnode
    exact ⟨heap', done', h'', hrun.append hrest⟩

/-- The statements of the method, with those for properties that are not visited. -/
theorem visitStatements_visitable
    (hv : ∀ p ∈ c.properties, p.isVisitable = p.shape.containsClass) (e : Expr) :
    (c.visitable.flatMap fun p => visitStatements (.member e p.name) p.shape 0) =
      c.properties.flatMap fun p => visitStatements (.member e p.name) p.shape 0 := by
  unfold ClassModel.visitable
  revert hv
  induction c.properties with
  | nil => exact fun _ => rfl
  | cons p l ih =>
    intro hv
    rw [List.forall_mem_cons] at hv
    cases hp : p.isVisitable with
    | true => rw [List.filter_cons_of_pos hp, List.flatMap_cons, List.flatMap_cons, ih hv.2]
    | false =>
      rw [List.filter_cons_of_neg (by rw [hp]; decide), List.flatMap_cons,
        visitStatements_of_no_class (hv.1.symm.trans hp), ih hv.2]
      rfl

/-- The method does what the statements for the properties do, and it returns the object. -/
theorem yields_visitClassMethod {heap : Heap}
    (hv : ∀ p ∈ c.properties, p.isVisitable = p.shape.containsClass)
    (h : Executes prog this { s with locals := [("node", .ref address)] }
      (c.properties.flatMap fun p => visitStatements (.member (.ident "node") p.name) p.shape 0) .next
      ⟨heap, [("node", .ref address)]⟩) :
    Yields prog (invoke this (visitClassMethod c) [.ref address]) s (.ref address)
      { s with heap } := by
  let u : State := { s with locals := [("node", .ref address)] }
  have hnode : Evaluates prog this u (.ident "node") (.ref address) := .localOf rfl
  have hret : Executes prog this { u with heap } [.ret (.ident "node")] (.returned (.ref address))
      { u with heap } := .single (yields_ret (.localOf rfl))
  rw [← visitStatements_visitable hv] at h
  refine yields_invokeTo rfl (Executes.append ?_ hret) (Or.inl rfl)
  cases hempty : (c.visitable.flatMap fun p =>
      visitStatements (.member (.ident "node") p.name) p.shape 0).isEmpty with
  | true =>
    rw [List.isEmpty_iff.1 hempty] at h
    exact h
  | false =>
    exact executes_unlessNull hnode rfl (fun hnull => absurd hnull Bool.false_ne_true) fun _ =>
      yields_blockTo [] h rfl

/-- What the evaluator does with the properties of an instance. -/
theorem exists_visitProperties {fields : List (String × Json)}
    (hparts : parts.map Prod.fst = c.properties) (hkeys : c.DistinctKeys)
    (hv : ∀ p ∈ c.properties, p.isVisitable = p.shape.containsClass)
    (hshape : ∀ q ∈ parts, q.2.shape = q.1.shape)
    (htree : ∀ q ∈ parts, q.2.tree = (Json.object fields).part q.1.jsonName)
    (ih : ∀ q ∈ parts, VisitRefines prog f base q.2) :
    ∃ visited visits, Registry.visitProperties c fields
        (Fields.mapValues (prog.registry.visitValue f) fields) = .ok (visited, visits) ∧
      ∀ q ∈ parts, (Json.object visited).part q.1.jsonName =
        (prog.registry.rewritten f q.2.tree q.2.shape).value := by
  have hrewrites (p) (hp : p ∈ c.properties) :
      prog.registry.Rewrites f ((Json.object fields).part p.jsonName) p.shape := by
    rw [← hparts] at hp
    obtain ⟨q, hq, rfl⟩ := List.mem_map.1 hp
    rw [← htree q hq, ← hshape q hq]
    exact (ih q hq).rewrites
  obtain ⟨visited, visits, hvisit, -, hvisited, -⟩ :=
    Registry.visitProperties_eq hkeys hv hrewrites
  refine ⟨visited, visits, hvisit, fun q hq => ?_⟩
  rw [Registry.part_eq_of_get? hkeys hvisited (hparts ▸ List.mem_map.2 ⟨q, hq, rfl⟩), htree q hq,
    hshape q hq]

/-- **The method of an instance**, if its properties are visited as they should. -/
theorem yields_visitInstance {properties : Fields Value} {visited : List (String × Json)}
    (hc : prog.registry.get? name = some c) (hparts : parts.map Prod.fst = c.properties)
    (hv : ∀ p ∈ c.properties, p.isVisitable = p.shape.containsClass)
    (ho : base.object? address = some (.instanceOf name properties))
    (hshape : ∀ q ∈ parts, q.2.shape = q.1.shape)
    (hvalue : ∀ q ∈ parts, properties.get? q.1.name = some q.2.value)
    (hd : ∀ q ∈ parts, Owns prog.registry .plain base q.2)
    (hnodup : (address :: Part.allCells (parts.map Prod.snd)).Nodup)
    (ih : ∀ q ∈ parts, VisitRefines prog f base q.2)
    (hvisited : ∀ q ∈ parts, (Json.object visited).part q.1.jsonName =
      (prog.registry.rewritten f q.2.tree q.2.shape).value)
    (hbase : ∀ x ∈ address :: Part.allCells (parts.map Prod.snd),
      s.heap.object? x = base.object? x) :
    ∃ heap cells,
      Owns prog.registry .replaced heap ⟨.ofClass name, .ref address, .object visited, cells⟩ ∧
      cells.Nodup ∧
      (∀ x ∈ cells, x ∈ address :: Part.allCells (parts.map Prod.snd) ∨ s.heap.length ≤ x) ∧
      Touched (· ∈ address :: Part.allCells (parts.map Prod.snd)) s.heap heap ∧
      Yields prog (invoke this (visitClassMethod c) [.ref address]) s (.ref address)
        { s with heap } := by
  have hsame (y) (hy : y ∈ Part.allCells (parts.map Prod.snd)) :
      s.heap.object? y = base.object? y := hbase y (List.mem_cons_of_mem _ hy)
  have hstart : Visiting prog.registry f address parts Prod.snd (holdsProperties name) s.heap s.heap
      [] parts := by
    refine .start ((hbase address List.mem_cons_self).trans ho) ⟨properties, rfl, ?_⟩
      (fun y hy => ?_) hnodup
    · exact List.forall_mem_map.2 hvalue
    · obtain ⟨p, hp, hmem⟩ := List.mem_flatMap.1 hy
      obtain ⟨q, hq, rfl⟩ := List.mem_map.1 hp
      refine ((hd q hq).congr fun z hz => hsame z ?_).lt y hmem
      exact Part.cells_subset_allCells hp hz
  obtain ⟨heap, done, h, hrun⟩ := executes_visitProperties
    (s := { s with locals := [("node", .ref address)] }) hd hstart ih hsame rfl
  have hstatements : (parts.flatMap fun x =>
      visitStatements (.member (.ident "node") x.1.name) x.2.shape 0) =
      c.properties.flatMap fun p => visitStatements (.member (.ident "node") p.name) p.shape 0 := by
    rw [← hparts, List.flatMap_map, List.flatMap_def, List.flatMap_def,
      List.map_congr_left fun q hq => by rw [hshape q hq]]
  rw [hstatements] at hrun
  refine ⟨heap, address :: Part.allCells (done.map Prod.snd), ?_, h.nodup_done,
    h.within_done (Nat.le_refl _), h.touched, yields_visitClassMethod hv hrun⟩
  -- the parts with their properties
  let replaced : List (Property × Part) := done.map fun q => (q.1.1, q.2)
  have hrow : replaced.map Prod.snd = done.map Prod.snd := by
    rw [List.map_map]
    rfl
  obtain ⟨o, hobject, after, rfl, hafter⟩ := h.object
  rw [← hrow]
  refine .object replaced hc ?_ hobject (List.forall_mem_map.2 fun q hq => ?_)
    (List.forall_mem_map.2 fun q hq => ?_) (List.forall_mem_map.2 fun q hq => ?_)
    (List.forall_mem_map.2 h.owns) fun hform => absurd hform (by decide)
  · rw [← hparts, ← h.eq_of_done, List.map_map, List.map_map]
    rfl
  · rw [h.shapes q hq, hshape q.1 (h.mem_of_done hq)]
  · rw [h.trees q hq, hvisited q.1 (h.mem_of_done hq)]
  · exact hafter (q.1, q.2.value) (List.mem_append_left _ (List.mem_map.2 ⟨q, hq, rfl⟩))

end

/-- An object is not fixed. -/
theorem Owns.isFixed_eq_false {r : Registry} {form : Form} {heap : Heap} {name : String}
    {address : Nat} {tree : Json} {cells : List Nat}
    (h : Owns r form heap ⟨.ofClass name, .ref address, tree, cells⟩) (ext : Heap) :
    Heap.isFixed (heap ++ ext) (.ref address) = false := by
  cases h with
  | object parts hc hparts ho =>
    rw [Heap.isFixed, Heap.object?_append ho ext]
    rfl

/-- **Instances** are visited by their own methods, and what these leave is replaced. -/
theorem visitRefines_object {known : Nat → Json → Prop} {address : Nat} {name : String}
    {c : ClassModel} {properties : Fields Value} {fields : List (String × Json)}
    {parts : List (Property × Part)}
    (hk : prog.registry.Keyed)
    (hsubstitutes : Substitutes prog.registry f prog.substitute known)
    (hc : prog.registry.get? name = some c) (hparts : parts.map Prod.fst = c.properties)
    (hkeys : c.DistinctKeys) (hv : ∀ p ∈ c.properties, p.isVisitable = p.shape.containsClass)
    (ho : base.object? address = some (.instanceOf name properties))
    (hshape : ∀ q ∈ parts, q.2.shape = q.1.shape)
    (htree : ∀ q ∈ parts, q.2.tree = (Json.object fields).part q.1.jsonName)
    (hvalue : ∀ q ∈ parts, properties.get? q.1.name = some q.2.value)
    (hd : ∀ q ∈ parts, Owns prog.registry .plain base q.2)
    (hnodup : (address :: Part.allCells (parts.map Prod.snd)).Nodup)
    (hknown : ∀ x b, VisitedAs prog.registry f base (.ofClass name) (.ref address) (.object fields)
      x b → known x b)
    (ih : ∀ q ∈ parts, VisitRefines prog f base q.2) :
    VisitRefines prog f base ⟨.ofClass name, .ref address, .object fields,
      address :: Part.allCells (parts.map Prod.snd)⟩ := by
  obtain ⟨visited, visits, hvisit, hvisited⟩ :=
    exists_visitProperties hparts hkeys hv hshape htree ih
  have hclass := Registry.visitValue_class hk hc hvisit
  refine ⟨Registry.rewrites_of_eq hclass, fun {this s target level home put} hbase hslot => ?_⟩
  obtain ⟨heap, cells, howns, hcells, hwithin, htouched, hrun⟩ := yields_visitInstance hc hparts hv
    ho hshape hvalue hd hnodup ih hvisited hbase
  obtain ⟨cells', howns', hcells', hwithin'⟩ := hsubstitutes (hknown _ _ (.here hc hvisit)) howns hcells
  have hnode := yields_visitNode (t := { s with heap })
    ((Heap.class?_of_object? ((hbase address List.mem_cons_self).trans ho)).trans hc) hrun
  rw [hk.name_of_get? hc] at hnode
  refine executes_visitNode hslot rfl hnode (htouched.trans (.append _ _ _))
    (fun hfixed => ?_) ⟨?_, hcells', fun x hx => ?_⟩
  · exact absurd (hfixed.symm.trans (howns.isFixed_eq_false _)) (by decide)
  · rw [Registry.rewritten_eq hclass]
    exact howns'
  · rcases hwithin' x hx with hold | hnew
    · exact hwithin x hold
    · exact Or.inr (Nat.le_trans htouched.grown hnew)

/-- What a tree needs to be visited: it shares nothing, its classes have no two properties for one key,
and the objects in it are known to the substitution. -/
structure Visitable (r : Registry) (f : String → Json → Json) (base : Heap)
    (known : Nat → Json → Prop) (q : Part) : Prop where
  keys : ∀ d, r.Reaches q.shape d → d.DistinctKeys
  nodup : q.cells.Nodup
  known : ∀ x b, VisitedAs r f base q.shape q.value q.tree x b → known x b

namespace Visitable

variable {r : Registry} {known : Nat → Json → Prop} {address : Nat} {element : Shape}

theorem nodup_part {shape : Shape} {tree : Json} {row : List Part} {q : Part}
    (h : Visitable r f base known ⟨shape, .ref address, tree, address :: Part.allCells row⟩)
    (hq : q ∈ row) : q.cells.Nodup :=
  (List.nodup_flatMap.1 (List.nodup_cons.1 h.nodup).2).1 q hq

theorem property {name : String} {c : ClassModel} {properties : Fields Value}
    {fields : List (String × Json)} {parts : List (Property × Part)} {q : Property × Part}
    (h : Visitable r f base known ⟨.ofClass name, .ref address, .object fields,
      address :: Part.allCells (parts.map Prod.snd)⟩)
    (hc : r.get? name = some c) (hparts : parts.map Prod.fst = c.properties)
    (ho : base.object? address = some (.instanceOf name properties))
    (hshape : ∀ q ∈ parts, q.2.shape = q.1.shape)
    (htree : ∀ q ∈ parts, q.2.tree = (Json.object fields).part q.1.jsonName)
    (hvalue : ∀ q ∈ parts, properties.get? q.1.name = some q.2.value) (hq : q ∈ parts) :
    Visitable r f base known q.2 := by
  have hp : q.1 ∈ c.properties := hparts ▸ List.mem_map.2 ⟨q, hq, rfl⟩
  refine ⟨fun d hd => h.keys d (.there rfl hc hp (hshape q hq ▸ hd)),
    h.nodup_part (List.mem_map.2 ⟨q, hq, rfl⟩), fun x b hx => h.known x b ?_⟩
  rw [hshape q hq, htree q hq] at hx
  exact .further (.property hc ho hp (hvalue q hq)) hx

theorem item {parts : List Part} {q : Part}
    (h : Visitable r f base known ⟨.array element, .ref address, .list (parts.map Part.tree),
      address :: Part.allCells parts⟩)
    (ho : base.object? address = some (.list (parts.map Part.value)))
    (hshape : ∀ q ∈ parts, q.shape = element) (hq : q ∈ parts) : Visitable r f base known q := by
  obtain ⟨i, hi⟩ := List.getElem?_of_mem hq
  have hitem {β : Type} (g : Part → β) : (parts.map g)[i]? = some (g q) := by
    rw [List.getElem?_map, hi, Option.map_some]
  refine ⟨fun d hd => h.keys d (.array (hshape q hq ▸ hd)), h.nodup_part hq,
    fun x b hx => h.known x b ?_⟩
  rw [hshape q hq] at hx
  exact .further (.item ho (hitem _) (hitem _)) hx

theorem entry {parts : Fields Part} {q : String × Part}
    (h : Visitable r f base known ⟨.map element, .ref address, .object (parts.mapValues Part.tree),
      address :: Part.allCells (parts.map Prod.snd)⟩) (hk : parts.keys.Nodup)
    (ho : base.object? address = some (.dictionary (parts.mapValues Part.value)))
    (hshape : ∀ q ∈ parts, q.2.shape = element) (hq : q ∈ parts) :
    Visitable r f base known q.2 := by
  have hentry {β : Type} (g : Part → β) : (parts.mapValues g).get? q.1 = some (g q.2) := by
    rw [Fields.get?_mapValues, Fields.get?_of_mem hk hq, Option.map_some]
  refine ⟨fun d hd => h.keys d (.map (hshape q hq ▸ hd)),
    h.nodup_part (List.mem_map.2 ⟨q, hq, rfl⟩), fun x b hx => h.known x b ?_⟩
  rw [hshape q hq] at hx
  exact .further (.entry ho (hentry _) (hentry _)) hx

end Visitable

/-- **Generated statements visit as the evaluator does.** -/
theorem Owns.visitRefines {known : Nat → Json → Prop} {q : Part} (hk : prog.registry.Keyed)
    (hv : prog.registry.VisitsByShape)
    (hsubstitutes : Substitutes prog.registry f prog.substitute known)
    (hq : Owns prog.registry .plain base q) (h : Visitable prog.registry f base known q) :
    VisitRefines prog f base q := by
  induction hq with
  | null hnull => exact visitRefines_null hnull
  | scalar ha => exact visitRefines_of_no_class rfl (.scalar ha) h.nodup
  | foreign hform _ => exact absurd hform (by decide)
  | object parts hc hparts ho hshape htree hvalue hd _ ih =>
    exact visitRefines_object hk hsubstitutes hc hparts (h.keys _ (.here rfl hc))
      (hv _ (Registry.mem_of_get? hc)) ho hshape htree hvalue hd h.nodup h.known fun q hq => ih q hq (h.property hc hparts ho hshape htree hvalue hq)
  | @list element address parts ho hshape hd ih =>
    cases hclass : element.containsClass with
    | false => exact visitRefines_of_no_class hclass (.list parts ho hshape hd) h.nodup
    | true =>
      exact visitRefines_list hclass ho hshape hd h.nodup fun q hq => ih q hq (h.item ho hshape hq)
  | @map element address parts hk ho hshape hd ih =>
    cases hclass : element.containsClass with
    | false => exact visitRefines_of_no_class hclass (.map parts hk ho hshape hd) h.nodup
    | true =>
      exact visitRefines_map hclass hk ho hshape hd h.nodup fun q hq =>
        ih q hq (h.entry hk ho hshape hq)

/-! ## The visitor -/

/-- **Generated visitors leave nodes as the evaluator does.** For a class of a registry that was built
from a schema, where no class that its objects lead to has two properties for one key, as none has if
the schema repeats no key, and for every substitution:

* well-typed trees lie in some heap without sharing, if no two properties of such a class have the
  same name;
* wherever one lies without sharing, there is a substitution in the heap that follows the one on
  trees. With any such substitution, the method for the class ends with the node that it was given,
  and meets no fault, such as a dereferenced `null`. The node stands for what the evaluator hands to
  its substitution in the end. Only objects of the tree are written to, and every list and every
  dictionary stays in its place, with its length, its keys and their order.

Only the first part asks for names, and of all these classes: an object has one value for two
properties of one name, so a tree with different values for them lies in no heap. Where a tree does lie
without sharing, such properties lead to no objects, and visits do not change them. -/
theorem visitClassMethod_refines {schema : Schema} {hints : HintTable} {rootClass name : String}
    {r : Registry} {c : ClassModel} {a : Json}
    (hbuild : Registry.build schema hints rootClass = .ok r) (hc : r.get? name = some c)
    (hkeys : ∀ d, r.Reaches (.ofClass name) d → d.DistinctKeys)
    (ha : r.fits a (.ofClass name) = true) (hnull : a.isNull = false) (f : String → Json → Json) :
    ((∀ d, r.Reaches (.ofClass name) d → (d.properties.map Property.name).Nodup) →
      ∃ heap v cells, Owns r .plain heap ⟨.ofClass name, v, a, cells⟩ ∧ cells.Nodup) ∧
    ∀ (s : State) (v : Value) (cells : List Nat),
      Owns r .plain s.heap ⟨.ofClass name, v, a, cells⟩ → cells.Nodup →
      (∃ substitute, Substitutes r f substitute (VisitedAs r f s.heap (.ofClass name) v a)) ∧
      ∀ prog : Program, prog.registry = r →
        Substitutes r f prog.substitute (VisitedAs r f s.heap (.ofClass name) v a) →
        ∀ this, ∃ given visited visits heap cells', a = .object given ∧
          Registry.visitProperties c given (Fields.mapValues (r.visitValue f) given) =
            .ok (visited, visits) ∧
          r.visit f name a = .ok ⟨f name (.object visited), visits ++ [name]⟩ ∧
          Yields prog (invoke this (visitClassMethod c) [v]) s v { s with heap } ∧
          Owns r .replaced heap ⟨.ofClass name, v, .object visited, cells'⟩ ∧ cells'.Nodup ∧
          Touched (· ∈ cells) s.heap heap := by
  have hk := Registry.keyed_of_build hbuild
  have hv := Registry.visitsByShape_of_build hbuild
  constructor
  · intro hnames
    obtain ⟨ext, v, cells, hrow⟩ := exists_owns hnames ha []
    obtain ⟨howns, hnodup, -⟩ := Row.singleton_iff.1 hrow
    exact ⟨_, v, cells, howns, hnodup⟩
  · intro s v cells howns hnodup
    refine ⟨exists_substitutes r f fun x b b' hb hb' => hb.unique hb' howns hnodup, ?_⟩
    rintro prog rfl hsubstitutes this
    cases howns with
    | null _ => cases hnull
    | foreign hform _ => cases hform
    | object parts hc' hparts ho hshape htree hvalue hd =>
      cases hc.symm.trans hc'
      have hvisits (q) (hq : q ∈ parts) : VisitRefines prog f s.heap q.2 :=
        (hd q hq).visitRefines hk hv hsubstitutes (Visitable.property
          ⟨hkeys, hnodup, fun _ _ h => h⟩ hc hparts ho hshape htree hvalue hq)
      have hclass := hv c (Registry.mem_of_get? hc)
      obtain ⟨visited, visits, hvisit, hvisited⟩ :=
        exists_visitProperties hparts (hkeys c (.here rfl hc)) hclass hshape htree hvisits
      obtain ⟨heap, cells', howns, hcells, -, htouched, hrun⟩ := yields_visitInstance hc hparts
        hclass ho hshape hvalue hd hnodup hvisits hvisited fun _ _ => rfl
      exact ⟨_, visited, visits, heap, cells', rfl, hvisit, Registry.visitValue_class hk hc hvisit,
        hrun, howns, hcells, htouched⟩

theorem visitClassMethod_refines_trees :
    ∃ (c : ClassModel) (prog : Program) (s : State) (v this : Value) (cells cells' : List Nat)
      (given visited : List (String × Json)) (visits : List String) (heap : Heap),
      Registry.trees.get? "Tree" = some c ∧ prog.registry = Registry.trees ∧
      Owns Registry.trees .plain s.heap ⟨.ofClass "Tree", v, Registry.aTree, cells⟩ ∧ cells.Nodup ∧
      Registry.aTree = .object given ∧
      Registry.visitProperties c given
          (Fields.mapValues (Registry.trees.visitValue fun _ b => .list [b]) given) =
        .ok (visited, visits) ∧
      Registry.trees.visit (fun _ b => .list [b]) "Tree" Registry.aTree =
        .ok ⟨.list [.object visited], visits ++ ["Tree"]⟩ ∧
      Yields prog (invoke this (visitClassMethod c) [v]) s v { s with heap } ∧
      Owns Registry.trees .replaced heap ⟨.ofClass "Tree", v, .object visited, cells'⟩ ∧
      cells'.Nodup ∧ Touched (· ∈ cells) s.heap heap := by
  have hnames (d) (hd : Registry.trees.Reaches (.ofClass "Tree") d) :
      (d.properties.map Property.name).Nodup := by
    cases List.mem_singleton.1 hd.mem
    decide
  have hkeys (d) (hd : Registry.trees.Reaches (.ofClass "Tree") d) : d.DistinctKeys :=
    Registry.distinctKeys_of_build build_treeSchema distinctNames_treeSchema d hd.mem
  have ha : Registry.trees.fits Registry.aTree (.ofClass "Tree") = true := by decide
  obtain ⟨hlies, h⟩ := visitClassMethod_refines build_treeSchema rfl hkeys ha rfl
    fun _ b => .list [b]
  obtain ⟨heap, v, cells, howns, hcells⟩ := hlies hnames
  obtain ⟨⟨substitute, hsubstitutes⟩, hrun⟩ := h ⟨heap, []⟩ v cells howns hcells
  obtain ⟨given, visited, visits, heap', cells', ha, hvisit, hresult, hrun⟩ :=
    hrun { registry := Registry.trees, substitute } rfl hsubstitutes .null
  exact ⟨_, _, ⟨heap, []⟩, v, .null, cells, cells', given, visited, visits, heap', rfl, rfl, howns,
    hcells, ha, hvisit, hresult, hrun⟩

end Classwright.Machine
