import Classwright.Proofs.Emit.OrderValues
import Classwright.Proofs.Machine.Owned
import Classwright.Proofs.Model.Build

/-!
# Generated order is the order of instances

`CompareTo` of a class, run on a heap, returns a number whose sign is what the evaluator says of the
two trees. Properties with a comparer are no exception: a comparer defines equality only, so both sides
order such a property by its shape.

## The architecture

* **`CompareRefines`** — `OrderRefines` for a call of `CompareTo` of a class in place of the statements
  that order two values of that class.
* **`orders_properties`** — the properties decide one after another. The parameter `other` and the local
  for the result stay in sight, and no local hides a property (`OrderNames`).
* **`compares_compareTo`** — the body of `CompareTo` around them.
* **`orderRefines_object`** — statements that order two objects put `null` first and then call
  `CompareTo` of the class, which may sort keys and so make new objects.
* **`Denotes.orderRefines`** — the induction over what a value stands for.
* **`orderMember_refines`** — the member, for a registry that was built.
-/

namespace Classwright

open Code Emit

namespace Machine

variable {prog : Program} {heap : Heap}

/-! ## Names -/

/-- A property with a comparer is ordered by its shape as well. -/
theorem orderStatements_of_evaluated {p : Property} (h : p.evaluated = p.shape.comparison)
    (left right : Expr) (level : Nat) :
    orderStatements left right p.comparison p.shape level =
      orderByShape p.shape left right level := by
  cases hc : p.comparison with
  | custom comparer => rfl
  | _ =>
    simp only [Property.evaluated, hc] at h
    rw [h]
    exact orderStatements_comparison _ _ _ _

/-- The names of the properties of a class are not those of the locals and parameters of its
`CompareTo`. -/
def OrderNames (c : ClassModel) : Prop := ∀ p ∈ c.properties, p.name ∉ (compareTo c).names

theorem names_compareTo (c : ClassModel) :
    "other" ∈ (compareTo c).names ∧ compareResult ∈ (compareTo c).names ∧
      ∀ p ∈ c.properties, p.evaluated = p.shape.comparison →
        orderLocals p.shape 0 ⊆ (compareTo c).names := by
  refine ⟨List.mem_append_left _ List.mem_cons_self, List.mem_append_right _ ?_,
    fun p hp hshape name h => List.mem_append_right _ ?_⟩
  all_goals rw [compareTo, Option.getD_some, Stmt.declaredAll_append, Stmt.declaredAll_append]
  · simp [Stmt.declaredAll, Stmt.ifThen, Stmt.declared]
  · refine List.mem_append_left _ (List.mem_append_right _ ?_)
    rw [Stmt.declaredAll_flatMap]
    refine List.mem_flatMap.2 ⟨p, hp, ?_⟩
    rw [orderStatements_of_evaluated hshape]
    exact orderLocals_subset_declared _ _ _ _ h

/-! ## Objects -/

/-- What the evaluator says about the properties of two objects. -/
def propertiesRanking (r : Registry) (c : ClassModel) (a b : Json) : Ordering :=
  firstOf (c.properties.map fun p => ranking r p.shape (a.part p.jsonName) (b.part p.jsonName))

/-- The statements of `CompareTo` for the properties. -/
def orderProperties (c : ClassModel) : List Stmt :=
  c.properties.flatMap fun p =>
    orderStatements (.ident p.name) (.member (.ident "other") p.name) p.comparison p.shape 0

/-- The statements before them: `null`, the same object, the local for the result. -/
def orderStart : List Stmt :=
  [.ifThen (referenceEquals (.ident "other") .null) [.ret (.int 1)],
    .ifThen (referenceEquals .this (.ident "other")) [.ret (.int 0)],
    .declare compareResult (some (.named "int")) (.int 0)]

theorem body_compareTo (c : ClassModel) :
    (compareTo c).body = some (orderStart ++ orderProperties c ++ [.ret (.ident compareResult)]) := rfl

section

variable {c : ClassModel} {s : State} {a b : Json} {address address' : Nat}

theorem orderValues_objects {r : Registry} (hr : r.EvaluatesByShape) {name : String}
    (hc : r.get? name = some c) (ha : a.isNull = false) (hb : b.isNull = false)
    (h : ∀ p ∈ c.properties, r.orderValues (a.part p.jsonName) p.shape.comparison p.shape
      (b.part p.jsonName) = .ok (ranking r p.shape (a.part p.jsonName) (b.part p.jsonName)))
    (shape : Shape) :
    r.orderValues a (.structural name) shape b = .ok (propertiesRanking r c a b) := by
  rw [Registry.orderValues_structural r ha hb, Registry.find_of_get? hc]
  refine firstUnequal_eq_firstOf fun p hp => ?_
  rw [hr c (Registry.mem_of_get? hc) p hp]
  exact h p hp

/-- **The properties of two objects decide one after another.** -/
theorem orders_properties {className className' : String} {properties properties' : Fields Value}
    {value value' : Property → Value}
    (hr : ∀ p ∈ c.properties, p.evaluated = p.shape.comparison) (hn : OrderNames c)
    (hs : heap <+: s.heap)
    (hlocals : s.locals = [(compareResult, .int 0), ("other", .ref address')])
    (ho : heap.object? address = some (.instanceOf className properties))
    (hv : ∀ p ∈ c.properties, properties.get? p.name = some (value p))
    (ho' : heap.object? address' = some (.instanceOf className' properties'))
    (hv' : ∀ p ∈ c.properties, properties'.get? p.name = some (value' p))
    (h : ∀ p ∈ c.properties, OrderRefines prog heap p.shape (value p) (value' p) (a.part p.jsonName)
      (b.part p.jsonName)) :
    Orders prog (executeAll (.ref address) (orderProperties c)) s []
      (propertiesRanking prog.registry c a b) := by
  refine Orders.flatMap fun p hp new => ?_
  obtain ⟨hother, hresult, hsub⟩ := names_compareTo c
  -- no local hides the property, so its name is read as a member of `this`
  have hhidden : Fields.get? s.locals p.name = none := by
    have hne : p.name ≠ compareResult := fun he => hn p hp (he ▸ hresult)
    have hne' : p.name ≠ "other" := fun he => hn p hp (he ▸ hother)
    rw [hlocals, Fields.get?_cons, if_neg hne, Fields.get?_cons, if_neg hne', Fields.get?_nil]
  have hparam : Fields.get? s.locals "other" = some (.ref address') := by
    rw [hlocals, Fields.get?_cons, if_neg (by decide), Fields.get?_cons_self]
  have hzero : Fields.get? s.locals compareResult = some (.int 0) := by
    rw [hlocals, Fields.get?_cons_self]
  have hgrown := hs.trans (s.prefix_grow new)
  rw [orderStatements_of_evaluated (hr p hp)]
  refine (h p hp).orders hgrown hzero ?_ ?_
  · exact .property hhidden (fun hmem => hn p hp (hsub p hp (hr p hp) hmem)) not_false
      (Heap.object?_of_prefix hgrown ho) (hv p hp)
  · exact .member (.localOf hparam (not_mem_orderLocals (by decide) _ _)) not_false
      (Heap.object?_of_prefix hgrown ho') (hv' p hp)

/-- A call returns what its body returns, and of its state only new objects are left. -/
theorem compares_of_body {w : Value} {n : Int} {t : State}
    (h : Executes prog (.ref address) { s with locals := [("other", w)] }
      (orderStart ++ orderProperties c ++ [.ret (.ident compareResult)]) (.returned (.int n)) t)
    (ht : s.heap <+: t.heap) :
    Compares prog (invoke (.ref address) (compareTo c) [w]) s (signOf n) := by
  obtain ⟨new, hnew⟩ := ht
  have hcall : Yields prog (invoke (.ref address) (compareTo c) [w]) s (.int n)
      { t with locals := s.locals } := yields_invokeTo (body_compareTo c) h (Or.inl rfl)
  rw [← hnew] at hcall
  exact ⟨n, new, hcall, rfl⟩

/-- An object comes after `null`. -/
theorem compares_compareTo_null :
    Compares prog (invoke (.ref address) (compareTo c) [.null]) s .gt := by
  let t : State := { s with locals := [("other", .null)] }
  have hother : Evaluates prog (.ref address) t (.ident "other") .null := .localOf rfl
  have hleave : Yields prog (execute (.ref address)
      (.ifThen (referenceEquals (.ident "other") .null) [.ret (.int 1)])) t (.returned (.int 1)) t :=
    yields_leaveWith (.referenceEquals hother .null (yields_sameReference_self rfl))
  exact compares_of_body (.returned hleave _) (List.prefix_refl _)

/-- Two objects are ordered by their properties, and an object does not differ from itself. -/
theorem compares_compareTo {o : Ordering} (hsame : address = address' → o = .eq)
    (hother : address ≠ address' → Orders prog (executeAll (.ref address) (orderProperties c))
      { s with locals := [(compareResult, .int 0), ("other", .ref address')] } [] o) :
    Compares prog (invoke (.ref address) (compareTo c) [.ref address']) s o := by
  let t : State := { s with locals := [("other", .ref address')] }
  let u : State := t.push [(compareResult, .int 0)]
  have hparam : Evaluates prog (.ref address) t (.ident "other") (.ref address') := .localOf rfl
  have hnull : Yields prog (execute (.ref address)
      (.ifThen (referenceEquals (.ident "other") .null) [.ret (.int 1)])) t .next t :=
    yields_passBy (.referenceEquals hparam .null (yields_sameReference_of_ne rfl rfl nofun))
  by_cases h : address = address'
  · subst h
    have hself : Yields prog (execute (.ref address)
        (.ifThen (referenceEquals .this (.ident "other")) [.ret (.int 0)])) t (.returned (.int 0)) t :=
      yields_leaveWith (.referenceEquals .self hparam (yields_sameReference_self rfl))
    rw [hsame rfl]
    exact compares_of_body (.next hnull (.returned hself _)) (List.prefix_refl _)
  · have hne : Value.ref address ≠ .ref address' := fun he => h (Value.ref.inj he)
    have hself : Yields prog (execute (.ref address)
        (.ifThen (referenceEquals .this (.ident "other")) [.ret (.int 0)])) t .next t :=
      yields_passBy (.referenceEquals .self hparam (yields_sameReference_of_ne rfl rfl hne))
    have hdeclare : Yields prog (execute (.ref address)
        (.declare compareResult (some (.named "int")) (.int 0))) t .next u :=
      yields_declare (evaluates_int 0)
    have hstart : Executes prog (.ref address) t orderStart .next u :=
      .next hnull (.next hself (.single hdeclare))
    -- a difference has left from inside; without one the local for the result is still zero
    cases hother h with
    | goesOn new hx =>
      have hret : Yields prog (execute (.ref address) (.ret (.ident compareResult))) (u.grow new)
          (.returned (.int 0)) (u.grow new) := yields_ret (.localOf rfl)
      exact compares_of_body ((hstart.append hx).append (.single hret)) (t.prefix_grow new)
    | leaves hx hn ho ht =>
      rw [← hn]
      exact compares_of_body ((hstart.append hx).append_returned _) ht

end

/-- What `CompareTo` of a class says about two values that stand for trees. -/
structure CompareRefines (prog : Program) (heap : Heap) (name : String) (c : ClassModel) (v w : Value)
    (a b : Json) : Prop where
  evaluates : prog.registry.orderValues a (.structural name) (.ofClass name) b =
    .ok (ranking prog.registry (.ofClass name) a b)
  compares {s : State} (hs : heap <+: s.heap) :
    Compares prog (invoke v (compareTo c) [w]) s (ranking prog.registry (.ofClass name) a b)

theorem CompareRefines.intro {name : String} {c : ClassModel} {v w : Value} {a b : Json}
    {o : Ordering} (he : prog.registry.orderValues a (.structural name) (.ofClass name) b = .ok o)
    (hx : ∀ {s : State}, heap <+: s.heap → Compares prog (invoke v (compareTo c) [w]) s o) :
    CompareRefines prog heap name c v w a b := by
  have hranking : ranking prog.registry (.ofClass name) a b = o := by
    rw [ranking, Shape.comparison, he]
  exact ⟨hranking ▸ he, fun hs => hranking ▸ hx hs⟩

/-- **`CompareTo` of an object**, if its properties are ordered as they should. -/
theorem compareRefines_object (hr : prog.registry.EvaluatesByShape) {name : String} {c : ClassModel}
    {address : Nat} {properties : Fields Value} {fields : List (String × Json)}
    {value : Property → Value} (hn : OrderNames c) (hc : prog.registry.get? name = some c)
    (ho : heap.object? address = some (.instanceOf name properties))
    (hv : ∀ p ∈ c.properties, properties.get? p.name = some (value p))
    (hd : ∀ p ∈ c.properties,
      Denotes prog.registry heap p.shape (value p) ((Json.object fields).part p.jsonName))
    (ih : ∀ p ∈ c.properties, ∀ {w : Value} {b : Json}, Denotes prog.registry heap p.shape w b →
      OrderRefines prog heap p.shape (value p) w ((Json.object fields).part p.jsonName) b)
    {w : Value} {b : Json} (hw : Denotes prog.registry heap (.ofClass name) w b) :
    CompareRefines prog heap name c (.ref address) w (.object fields) b := by
  cases hw with
  | null _ => exact .intro rfl fun _ => compares_compareTo_null
  | @object _ _ address' _ _ value' hc' ho' hv' hd' =>
    cases hc.symm.trans hc'
    by_cases haddress : address = address'
    -- an object is not compared with itself, but the evaluator has looked into it
    · subst haddress
      have hsame := (Denotes.object value hc ho hv hd).order_eq hr (.object value' hc' ho' hv' hd')
      exact .intro hsame fun _ => compares_compareTo (fun _ => rfl) fun h => absurd rfl h
    · have hstep (p) (hp : p ∈ c.properties) := ih p hp (hd' p hp)
      refine .intro (orderValues_objects hr hc rfl rfl (fun p hp => (hstep p hp).evaluates) _)
        fun hs => compares_compareTo (fun h => absurd h haddress) fun _ => ?_
      exact orders_properties (hr c (Registry.mem_of_get? hc)) hn hs rfl ho hv ho' hv' hstep

/-- **Objects** are ordered by `CompareTo` of their class. -/
theorem orderRefines_object {name : String} {c : ClassModel} {address : Nat} {a : Json}
    (hc : prog.registry.get? name = some c)
    (hv : Denotes prog.registry heap (.ofClass name) (.ref address) a) {w : Value} {b : Json}
    (hw : Denotes prog.registry heap (.ofClass name) w b)
    (h : CompareRefines prog heap name c (.ref address) w a b) :
    OrderRefines prog heap (.ofClass name) (.ref address) w a b := by
  refine ⟨h.evaluates, fun {this s left right level} hs hzero hl hright =>
    orders_setAndCheck hzero (compares_classComparison hl.evaluates hright.evaluates ?_)⟩
  cases hw with
  | null _ =>
    cases hv with
    | object _ _ _ _ _ => exact .of_unchanged (n := 1) (Yields.result _ s)
  | object _ _ _ _ _ =>
    cases hv with
    | object _ _ ho _ _ =>
      have hobject := Heap.object?_of_prefix hs ho
      have hclass := (Heap.class?_of_object? (r := prog.registry) hobject).trans hc
      obtain ⟨n, new, hyields, hn⟩ := h.compares hs
      exact ⟨n, new, yields_callMethod hobject hclass rfl hyields, hn⟩

/-- `null` comes before an object. -/
theorem orderRefines_nullClass {name : String} {w : Value} {b : Json}
    (hw : Denotes prog.registry heap (.ofClass name) w b) :
    OrderRefines prog heap (.ofClass name) .null w .null b := by
  have hclass {o : Ordering} (ho : ∀ s, Compares prog (compareObjects prog .null w) s o)
      (he : prog.registry.orderValues .null (.structural name) (.ofClass name) b = .ok o) :
      OrderRefines prog heap (.ofClass name) .null w .null b :=
    .intro he fun _ hzero hl hr =>
      orders_setAndCheck hzero (compares_classComparison hl.evaluates hr.evaluates (ho _))
  cases hw with
  | null _ => exact hclass (fun s => .of_unchanged (n := 0) (Yields.result _ s)) rfl
  | object _ _ _ _ _ => exact hclass (fun s => .of_unchanged (n := -1) (Yields.result _ s)) rfl

/-- `null` comes before a list or a map. -/
theorem orderRefines_nullContainer {shape : Shape} (hshape : isContainer shape.comparison = true)
    {w : Value} {b : Json} (hw : Denotes prog.registry heap shape w b) :
    OrderRefines prog heap shape .null w .null b := by
  cases hw with
  | @null shape h =>
    cases shape with
    | array element =>
      exact .intro rfl fun _ _ hl hr => orders_sameContainer rfl hl.evaluates hr.evaluates
    | map element =>
      exact .intro rfl fun _ _ hl hr => orders_sameContainer rfl hl.evaluates hr.evaluates
    | scalar p => cases hshape
    | ofClass name => cases hshape
  | list items ho _ =>
    exact .intro rfl fun _ _ hl hr => orders_nullContainer hl.evaluates hr.evaluates
  | map entries _ ho _ =>
    exact .intro rfl fun _ _ hl hr => orders_nullContainer hl.evaluates hr.evaluates
  | scalar _ => cases hshape
  | object _ _ _ _ _ => cases hshape

/-! ## The refinement -/

/-- **Generated statements order as the evaluator does.** -/
theorem Denotes.orderRefines (hr : prog.registry.EvaluatesByShape) (horder : prog.leafOrder.Lawful)
    {shape : Shape} {v w : Value} {a b : Json} (hleaf : shape.leaf ≠ .scalar .any)
    (hn : ∀ d, prog.registry.Reaches shape d → OrderNames d)
    (hany : ∀ d, prog.registry.Reaches shape d → ∀ p ∈ d.properties, p.shape.leaf ≠ .scalar .any)
    (hv : Denotes prog.registry heap shape v a) (hw : Denotes prog.registry heap shape w b) :
    OrderRefines prog heap shape v w a b := by
  -- over what the first value stands for; the second one is taken apart in each case
  induction hv generalizing w b with
  | @null shape h =>
    cases shape with
    | scalar p => exact orderRefines_scalar horder (fun hp => hleaf (congrArg _ hp)) (.null h) hw
    | ofClass name => exact orderRefines_nullClass hw
    | array element => exact orderRefines_nullContainer rfl hw
    | map element => exact orderRefines_nullContainer rfl hw
  | scalar h =>
    exact orderRefines_scalar horder (fun hp => hleaf (congrArg _ hp)) (.scalar h) hw
  | object value hc ho hv hd ih =>
    refine orderRefines_object hc (.object value hc ho hv hd) hw
      (compareRefines_object hr (hn _ (.here rfl hc)) hc ho hv hd (fun p hp {w b} hw => ?_) hw)
    exact ih p hp (hany _ (.here rfl hc) p hp) (fun d hd => hn d (.there rfl hc hp hd))
      (fun d hd => hany d (.there rfl hc hp hd)) hw
  | list items ho hd ih =>
    exact orderRefines_list hr horder ho hd (fun q hq {w b} hw => ih q hq hleaf
      (fun d hd => hn d hd.array) (fun d hd => hany d hd.array) hw) hw
  | map entries hk ho hd ih =>
    exact orderRefines_map hr horder hk ho hd (fun e he {w b} hw => ih e he hleaf
      (fun d hd => hn d hd.map) (fun d hd => hany d hd.map) hw) hw

/-! ## The member -/

/-- **Generated order is the order of instances.** Scalars and counts are ordered by any lawful order.
For a class of a registry that was built, with comparers or without, where no class that its objects
lead to has two properties of one name, or one named like a local or parameter of its `CompareTo`, or
one that holds values of any type in the end:

* well-typed trees lie in some heap;
* wherever they lie, and whatever they share, the evaluator orders them, and `CompareTo` of the first
  one, which is not `null`, returns a negative number, zero or a positive one accordingly. It meets no
  fault, such as a dereferenced `null`, and leaves new objects behind at most. -/
theorem orderMember_refines {schema : Schema} {hints : HintTable} {rootClass name : String}
    {r : Registry} {c : ClassModel} {a b : Json} (order : LeafOrder) (horder : order.Lawful)
    (hbuild : Registry.build schema hints rootClass = .ok r) (hc : r.get? name = some c)
    (hnames : ∀ d, r.Reaches (.ofClass name) d →
      (d.properties.map Property.name).Nodup ∧ OrderNames d)
    (hany : ∀ d, r.Reaches (.ofClass name) d → ∀ p ∈ d.properties, p.shape.leaf ≠ .scalar .any)
    (ha : r.fits a (.ofClass name) = true) (hb : r.fits b (.ofClass name) = true)
    (hnull : a.isNull = false) :
    (∃ heap v w, Denotes r heap (.ofClass name) v a ∧ Denotes r heap (.ofClass name) w b) ∧
    ∀ (s : State) (v w : Value), Denotes r s.heap (.ofClass name) v a →
      Denotes r s.heap (.ofClass name) w b →
      ∃ o n new, r.order name a b = .ok o ∧
        Yields { registry := r, leafOrder := order } (invoke v (compareTo c) [w]) s (.int n)
          (s.grow new) ∧
        signOf n = o := by
  have hr := Registry.evaluatesByShape_of_build hbuild
  constructor
  · have hnodup (d) (hd : r.Reaches (.ofClass name) d) := (hnames d hd).1
    obtain ⟨ext, v, hv⟩ := exists_denotes hnodup ha []
    obtain ⟨ext', w, hw⟩ := exists_denotes hnodup hb ([] ++ ext)
    exact ⟨_, v, w, hv.append ext', hw⟩
  · intro s v w hv hw
    let prog : Program := { registry := r, leafOrder := order }
    cases hv with
    | null _ => cases hnull
    | @object _ _ address _ fields value hc' ho hv hd =>
      cases hc.symm.trans hc'
      have hcompare : CompareRefines prog s.heap name c (.ref address) w (.object fields) b := by
        refine compareRefines_object hr (hnames c (.here rfl hc)).2 hc ho hv hd
          (fun p hp {w b} hw => ?_) hw
        exact (hd p hp).orderRefines hr horder (hany c (.here rfl hc) p hp)
          (fun d hd => (hnames d (.there rfl hc hp hd)).2) (fun d hd => hany d (.there rfl hc hp hd)) hw
      obtain ⟨n, new, hyields, hn⟩ := hcompare.compares (List.prefix_refl _)
      refine ⟨_, n, new, ?_, hyields, hn⟩
      rw [Registry.order_eq, Registry.find_of_get? hc]
      exact hcompare.evaluates

/-- A tree that differs from another one in its last mark only. -/
def smoothTree : Json := .object [
  ("marks", .object [("bark", .text "smooth"), ("age", .null)]),
  ("height", .number (.integer 2)),
  ("below", .list [.object [("height", .number (.integer 1))], .null])]

theorem orderMember_refines_trees :
    Registry.trees.order "Tree" Registry.aTree smoothTree = .ok .lt ∧
    ∃ c v w s n new, Registry.trees.get? "Tree" = some c ∧
      Denotes Registry.trees s.heap (.ofClass "Tree") v Registry.aTree ∧
      Denotes Registry.trees s.heap (.ofClass "Tree") w smoothTree ∧
      Yields { registry := Registry.trees, leafOrder := .plain } (invoke v (compareTo c) [w]) s
        (.int n) (s.grow new) ∧
      signOf n = .lt := by
  have hlt : Registry.trees.order "Tree" Registry.aTree smoothTree = .ok .lt := by decide
  have hnames (d) (hd : Registry.trees.Reaches (.ofClass "Tree") d) :
      (d.properties.map Property.name).Nodup ∧ OrderNames d := by
    cases List.mem_singleton.1 hd.mem
    exact ⟨by decide, by unfold OrderNames; decide⟩
  have hany (d) (hd : Registry.trees.Reaches (.ofClass "Tree") d) :
      ∀ p ∈ d.properties, p.shape.leaf ≠ .scalar .any := by
    cases List.mem_singleton.1 hd.mem
    decide
  have ha : Registry.trees.fits Registry.aTree (.ofClass "Tree") = true := by decide
  have hb : Registry.trees.fits smoothTree (.ofClass "Tree") = true := by decide
  obtain ⟨⟨heap, v, w, hv, hw⟩, h⟩ := orderMember_refines .plain LeafOrder.plain_lawful
    build_treeSchema rfl hnames hany ha hb rfl
  obtain ⟨o, n, new, ho, hyields, hn⟩ := h ⟨heap, []⟩ v w hv hw
  cases hlt.symm.trans ho
  exact ⟨hlt, _, v, w, ⟨heap, []⟩, n, new, rfl, hv, hw, hyields, hn⟩

set_option maxRecDepth 4000 in
theorem run_compareTo_shelves : ∃ t, invoke (.ref 1) (compareTo shelfClass) [.ref 3]
    (engine (Registry.shelves "compareResult") 20) ⟨shelfHeap "compareResult", []⟩ =
      .ok (.int 1, t) :=
  ⟨_, rfl⟩

/-- **A property of a class further on may be hidden by a local.** The names of the class of shelves
are in order, and nothing on them is of any type. But boxes have a property that is named like the
local in which `CompareTo` keeps its results, so that there a number is compared with what is in the
other box. -/
theorem compareTo_differs_hidden :
    Registry.build shelfSchema (boxHints "compareResult") "Root" =
      .ok (Registry.shelves "compareResult") ∧
    (Registry.shelves "compareResult").get? "Shelf" = some shelfClass ∧
    (shelfClass.properties.map Property.name).Nodup ∧ OrderNames shelfClass ∧
    (∀ d, (Registry.shelves "compareResult").Reaches (.ofClass "Shelf") d →
      ∀ p ∈ d.properties, p.shape.leaf ≠ .scalar .any) ∧
    (Registry.shelves "compareResult").fits Registry.aShelf (.ofClass "Shelf") = true ∧
    ∃ s v w, Denotes (Registry.shelves "compareResult") s.heap (.ofClass "Shelf") v Registry.aShelf ∧
      Denotes (Registry.shelves "compareResult") s.heap (.ofClass "Shelf") w Registry.aShelf ∧
      (Registry.shelves "compareResult").order "Shelf" Registry.aShelf Registry.aShelf = .ok .eq ∧
      ¬ ∃ n t, Yields { registry := Registry.shelves "compareResult", leafOrder := .plain }
        (invoke v (compareTo shelfClass) [w]) s (.int n) t ∧ signOf n = .eq := by
  have hany (d) (hd : (Registry.shelves "compareResult").Reaches (.ofClass "Shelf") d) :
      ∀ p ∈ d.properties, p.shape.leaf ≠ .scalar .any := by
    rcases List.mem_cons.1 hd.mem with rfl | h
    · decide
    · cases List.mem_singleton.1 h
      decide
  refine ⟨build_shelfSchema "compareResult", rfl, by decide, by unfold OrderNames; decide, hany, rfl,
    ⟨shelfHeap "compareResult", []⟩, .ref 1, .ref 3, denotes_shelf rfl rfl, denotes_shelf rfl rfl,
    by decide, ?_⟩
  rintro ⟨n, t, hrun, hn⟩
  obtain ⟨t', h⟩ := run_compareTo_shelves
  cases (hrun.eq_of_engine h).1
  cases hn

end Machine

end Classwright
