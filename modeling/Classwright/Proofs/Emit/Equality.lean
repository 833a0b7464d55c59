import Classwright.Proofs.Emit.EqualValues
import Classwright.Proofs.Machine.Owned
import Classwright.Proofs.Model.Build

/-!
# Generated equality decides equality

The members `Equals`, `==` and `!=` of a class, run on a heap, say of two objects what the evaluator
says of the trees they stand for. Objects may share parts, and `null` may stand wherever a shape
allows it.

## The architecture

* **`EqualsRefines`** — `Refines` for a call of `Equals` of a class in place of the statements that
  compare two values of that class.
* **`equalsRefines_object`** — the body of `Equals`, given that each property is compared as it
  should be: the parameter `other` stays in sight, and the properties are read as members of `this`,
  because no local has the name of a property (`EqualsNames`).
* **`refines_object`** — statements that compare two objects call `Object.Equals`, which tests for
  `null` and for the same reference and then calls `Equals` of the class.
* **`Denotes.refines`** — the induction over what a value stands for. A class may hold itself, so it
  runs over the tree and not over the shape.
* **`equalityMembers_refine`** — the three members, for a registry that was built.
-/

namespace Classwright

open Code Emit

namespace Machine

variable {prog : Program} {heap : Heap}

/-! ## Objects -/

theorem other_not_mem_equalLocals (comparison : Comparison) (level : Nat) :
    "other" ∉ equalLocals comparison level := by
  intro h
  obtain ⟨base, k, -, heq⟩ := level_of_mem_equalLocals h
  exact ne_numbered (by decide) base k heq

/-- The locals for a property are among the names of the method. -/
theorem equalLocals_subset_names {c : ClassModel} {p : Property} (hp : p ∈ c.properties) :
    equalLocals p.comparison 0 ⊆ (equalsTyped c).names := by
  intro name h
  refine List.mem_append_right _ ?_
  rw [equalsTyped, Option.getD_some, Stmt.declaredAll_append, Stmt.declaredAll_append,
    Stmt.declaredAll_flatMap]
  refine List.mem_append_left _ (List.mem_append_right _ (List.mem_flatMap.2 ⟨p, hp, ?_⟩))
  exact equalLocals_subset_declared _ _ _ _ _ h

/-- What the evaluator says about the properties of two objects. -/
def propertiesVerdict (r : Registry) (c : ClassModel) (a b : Json) : Bool :=
  c.properties.all fun p => verdict r p.shape (a.part p.jsonName) (b.part p.jsonName)

section

variable {c : ClassModel} {this w : Value} {s : State} {a b : Json}

theorem equalValues_objects {r : Registry} (hr : r.ComparesByShape) {name : String}
    (hc : r.get? name = some c) (ha : a.isNull = false) (hb : b.isNull = false)
    (h : ∀ p ∈ c.properties, r.equalValues (a.part p.jsonName) p.shape.comparison p.shape
      (b.part p.jsonName) = .ok (verdict r p.shape (a.part p.jsonName) (b.part p.jsonName)))
    (shape : Shape) :
    r.equalValues a (.structural name) shape b = .ok (propertiesVerdict r c a b) := by
  rw [Registry.equalValues_structural r ha hb, Registry.find_of_get? hc]
  refine allM_eq_all fun p hp => ?_
  rw [Property.evaluated_of_comparison (hr c (Registry.mem_of_get? hc) p hp)]
  exact h p hp

/-- The properties of two objects are compared one after another. -/
theorem executes_properties {value value' : Property → Value}
    (hr : ∀ p ∈ c.properties, p.comparison = p.shape.comparison)
    (hn : ∀ p ∈ c.properties, p.name ∉ (equalsTyped c).names)
    (hs : s.locals = [("other", w)])
    (hv : ∀ p ∈ c.properties, ∀ t : State, t.heap = s.heap →
      Yields prog (readMember this p.name) t (value p) t)
    (hw : ∀ p ∈ c.properties, ∀ t : State, t.heap = s.heap →
      Yields prog (readMember w p.name) t (value' p) t)
    (h : ∀ p ∈ c.properties, Refines prog s.heap p.shape (value p) (value' p) (a.part p.jsonName)
      (b.part p.jsonName)) :
    Executes prog this s (c.properties.flatMap fun p =>
      equalStatements (.ident p.name) (.member (.ident "other") p.name) p.comparison p.shape 0)
      (goOnIf (propertiesVerdict prog.registry c a b)) s := by
  refine Executes.flatMap_goOnIf fun p hp => ?_
  -- no local hides the property, so its name is read as a member of `this`
  have hname : p.name ∉ equalLocals p.comparison 0 := fun hmem =>
    hn p hp (equalLocals_subset_names hp hmem)
  have hparam : p.name ≠ "other" := by
    intro he
    exact hn p hp (he ▸ List.mem_append_left _ List.mem_cons_self)
  rw [hr p hp] at hname ⊢
  refine (h p hp).executes rfl (.property ?_ hname (hv p hp)) (.member (.localOf ?_ ?_) (hw p hp))
  · rw [hs, Fields.get?_cons, if_neg hparam, Fields.get?_nil]
  · rw [hs, Fields.get?_cons_self]
  · exact other_not_mem_equalLocals _ _

/-- Another object is compared property by property, and an object with itself not at all. -/
theorem yields_equalsTyped_ref {address : Nat} {e : Bool} (hthis : this.isReference = true)
    (hsame : this = .ref address → e = true)
    (hne : this ≠ .ref address → Executes prog this { s with locals := [("other", .ref address)] }
      (c.properties.flatMap fun p => equalStatements (.ident p.name)
        (.member (.ident "other") p.name) p.comparison p.shape 0)
      (goOnIf e) { s with locals := [("other", .ref address)] }) :
    Yields prog (invoke this (equalsTyped c) [.ref address]) s (.bool e) s := by
  let t : State := { s with locals := [("other", .ref address)] }
  have hother : Evaluates prog this t (.ident "other") (.ref address) := .localOf rfl
  have hnull : Evaluates prog this t (referenceEquals (.ident "other") .null) (.bool false) :=
    .referenceEquals hother .null (yields_sameReference_of_ne rfl rfl nofun)
  have hfirst : Yields prog (execute this (.ifThen (referenceEquals (.ident "other") .null)
      [returnFalse])) t .next t := yields_leaveIf hnull
  have htrue : Executes prog this t [.ret (.bool true)] (.returned (.bool true)) t :=
    .single (yields_ret (.bool true))
  refine yields_invoke rfl (t := t) ?_ rfl
  rw [List.append_assoc, List.cons_append, List.cons_append, List.nil_append]
  refine .next hfirst ?_
  by_cases h : this = .ref address
  · have hself : Evaluates prog this t (referenceEquals .this (.ident "other")) (.bool true) :=
      .referenceEquals .self hother (h ▸ yields_sameReference_self hthis)
    rw [hsame h]
    exact .returned (yields_ifThen hself (fun _ => ⟨[], htrue⟩) nofun) _
  · have hself : Evaluates prog this t (referenceEquals .this (.ident "other")) (.bool false) :=
      .referenceEquals .self hother (yields_sameReference_of_ne hthis rfl h)
    refine .next (yields_ifThen hself nofun fun _ => rfl) ?_
    cases e with
    | true => exact .append (hne h) htrue
    | false => exact .append_returned (hne h) _

/-- `Equals` for any object converts it and goes on. -/
theorem yields_equalsObject (hk : prog.registry.Keyed) {address address' : Nat} {name : String}
    {o : Object} {properties : Fields Value} {v : Value} (hc : prog.registry.get? name = some c)
    (ho : s.heap.object? address = some o)
    (hclass : s.heap.class? prog.registry (.ref address) = some c)
    (ho' : s.heap.object? address' = some (.instanceOf name properties))
    (h : ∀ t : State, t.heap = s.heap →
      Yields prog (invoke (.ref address) (equalsTyped c) [.ref address']) t v t) :
    Yields prog (invoke (.ref address) (equalsObject c) [.ref address']) s v s := by
  let t : State := { s with locals := [("obj", .ref address')] }
  have hobj : Evaluates prog (.ref address) t (.ident "obj") (.ref address') := .localOf rfl
  have hconvert : Evaluates prog (.ref address) t (.asType (.ident "obj") (.named c.name))
      (.ref address') := by
    rw [hk.name_of_get? hc]
    exact .asType hobj (yields_convert ho')
  refine yields_invoke rfl (t := t) (.single (yields_ret (yields_ownEquals hconvert ?_))) rfl
  exact yields_callMethod ho hclass rfl (h t rfl)

end

/-- What `Equals` of a class says about two values that stand for trees. -/
structure EqualsRefines (prog : Program) (heap : Heap) (name : String) (c : ClassModel) (v w : Value)
    (a b : Json) : Prop where
  evaluates : prog.registry.equalValues a (.structural name) (.ofClass name) b =
    .ok (verdict prog.registry (.ofClass name) a b)
  yields {s : State} (hs : s.heap = heap) :
    Yields prog (invoke v (equalsTyped c) [w]) s
      (.bool (verdict prog.registry (.ofClass name) a b)) s

theorem EqualsRefines.intro {name : String} {c : ClassModel} {v w : Value} {a b : Json} {e : Bool}
    (he : prog.registry.equalValues a (.structural name) (.ofClass name) b = .ok e)
    (hy : ∀ {s : State}, s.heap = heap → Yields prog (invoke v (equalsTyped c) [w]) s (.bool e) s) :
    EqualsRefines prog heap name c v w a b := by
  have hverdict : verdict prog.registry (.ofClass name) a b = e := by
    rw [verdict, show (Shape.ofClass name).comparison = .structural name from rfl, he]
  exact ⟨hverdict ▸ he, fun hs => hverdict ▸ hy hs⟩

/-- **`Equals` of an object**, if its properties are compared as they should. -/
theorem equalsRefines_object (hr : prog.registry.ComparesByShape) {name : String} {c : ClassModel}
    {address : Nat} {properties : Fields Value} {fields : List (String × Json)}
    {value : Property → Value} (hn : ∀ p ∈ c.properties, p.name ∉ (equalsTyped c).names)
    (hc : prog.registry.get? name = some c)
    (ho : heap.object? address = some (.instanceOf name properties))
    (hv : ∀ p ∈ c.properties, properties.get? p.name = some (value p))
    (hd : ∀ p ∈ c.properties,
      Denotes prog.registry heap p.shape (value p) ((Json.object fields).part p.jsonName))
    (ih : ∀ p ∈ c.properties, ∀ {w : Value} {b : Json}, Denotes prog.registry heap p.shape w b →
      Refines prog heap p.shape (value p) w ((Json.object fields).part p.jsonName) b)
    {w : Value} {b : Json} (hw : Denotes prog.registry heap (.ofClass name) w b) :
    EqualsRefines prog heap name c (.ref address) w (.object fields) b := by
  cases hw with
  | null _ => exact .intro rfl fun _ => yields_equalsTyped_null
  | @object _ c' address' properties' fields' value' hc' ho' hv' hd' =>
    cases hc.symm.trans hc'
    by_cases haddress : address = address'
    · subst haddress
      refine .intro ((Denotes.object value hc ho hv hd).equal hr (.object value' hc' ho' hv' hd'))
        fun _ => yields_equalsTyped_ref rfl (fun _ => rfl) fun h => absurd rfl h
    -- two objects of the class: their properties decide
    · have hstep (p) (hp : p ∈ c.properties) := ih p hp (hd' p hp)
      refine .intro (equalValues_objects hr hc rfl rfl (fun p hp => (hstep p hp).evaluates) _)
        fun {s} hs => yields_equalsTyped_ref rfl (fun h => absurd (Value.ref.inj h) haddress)
          fun _ => ?_
      subst hs
      refine executes_properties (hr c (Registry.mem_of_get? hc)) hn rfl (fun p hp t ht => ?_)
        (fun p hp t ht => ?_) hstep
      · exact yields_property (ht ▸ ho) (hv p hp)
      · exact yields_property (ht ▸ ho') (hv' p hp)

/-- **Objects** are compared by `Object.Equals`. -/
theorem refines_object (hr : prog.registry.ComparesByShape) (hk : prog.registry.Keyed)
    {name : String} {c : ClassModel} {address : Nat} {a : Json}
    (hc : prog.registry.get? name = some c)
    (hv : Denotes prog.registry heap (.ofClass name) (.ref address) a)
    {w : Value} {b : Json} (hw : Denotes prog.registry heap (.ofClass name) w b)
    (h : EqualsRefines prog heap name c (.ref address) w a b) :
    Refines prog heap (.ofClass name) (.ref address) w a b := by
  -- `Object.Equals` decides about the same reference before it calls `Equals` of the class
  have hself (he : w = .ref address) : verdict prog.registry (.ofClass name) a b = true := by
    subst he
    rw [verdict, hv.equal hr hw]
  refine ⟨h.evaluates, fun {this s left right level} hs hl hright => ?_⟩
  subst hs
  have hequals : Yields prog (objectsEqual prog (.ref address) w) s
      (.bool (verdict prog.registry (.ofClass name) a b)) s := by
    cases hv with
    | object _ _ ho _ _ =>
      have hclass : s.heap.class? prog.registry (.ref address) = some c :=
        (Heap.class?_of_object? ho).trans hc
      cases hw with
      | null _ => exact yields_objectsEqual_null hclass
      | @object _ _ address' _ _ _ _ ho' _ _ =>
        by_cases haddress : address = address'
        · subst haddress
          exact yields_objectsEqual_ref hclass (yields_sameReference_self rfl) (fun _ => hself rfl)
            fun hfalse => absurd hfalse.symm Bool.false_ne_true
        · have hne : Value.ref address ≠ .ref address' := fun he => haddress (Value.ref.inj he)
          exact yields_objectsEqual_ref hclass (yields_sameReference_of_ne rfl rfl hne)
            (fun htrue => absurd htrue Bool.false_ne_true)
            fun _ => yields_equalsObject hk hc ho hclass ho' fun t ht => h.yields ht
  have hleave := yields_leaveIf (Evaluates.not (.objectEquals hl.evaluates hright.evaluates hequals))
  rw [Bool.not_not] at hleave
  exact .single hleave

/-- Comparing `null` with an object or `null`. -/
theorem refines_null_class {name : String} {w : Value} {b : Json}
    (hw : Denotes prog.registry heap (.ofClass name) w b) :
    Refines prog heap (.ofClass name) .null w .null b := by
  refine .intro (e := b.isNull) rfl fun {this s left right level} _ hl hr => ?_
  have hequals : Yields prog (objectsEqual prog .null w) s (.bool b.isNull) s := by
    cases hw <;> exact yields_objectsEqual rfl (Yields.result _ s)
  have hleave := yields_leaveIf (Evaluates.not (.objectEquals hl.evaluates hr.evaluates hequals))
  rw [Bool.not_not] at hleave
  exact .single hleave

/-- Comparing `null` with a list or `null`, or with a map or `null`. -/
theorem refines_null_container {shape : Shape} (hshape : isContainer shape.comparison = true)
    {w : Value} {b : Json} (hw : Denotes prog.registry heap shape w b) :
    Refines prog heap shape .null w .null b := by
  cases hw with
  | null _ => exact refines_same hshape .null rfl
  | list items ho _ => exact refines_size rfl .null (.list ho) nofun rfl
  | map entries _ ho _ => exact refines_size rfl .null (.dictionary ho) nofun rfl
  | scalar _ => cases hshape
  | object _ _ _ _ _ => cases hshape

/-! ## The refinement -/

/-- The names of the properties of a class are not those of the locals and parameters of its
`Equals`. -/
def EqualsNames (c : ClassModel) : Prop := ∀ p ∈ c.properties, p.name ∉ (equalsTyped c).names

/-- **Generated statements compare as the evaluator does.** -/
theorem Denotes.refines (hr : prog.registry.ComparesByShape) (hk : prog.registry.Keyed)
    (hequal : prog.leafEqual.Lawful) {shape : Shape} {v w : Value} {a b : Json}
    (hn : ∀ d, prog.registry.Reaches shape d → EqualsNames d)
    (hv : Denotes prog.registry heap shape v a) (hw : Denotes prog.registry heap shape w b) :
    Refines prog heap shape v w a b := by
  -- over what the first value stands for; the second one is taken apart in each case
  induction hv generalizing w b with
  | @null shape h =>
    cases shape with
    | scalar p => exact refines_scalar hequal (.null h) hw
    | ofClass name => exact refines_null_class hw
    | array element => exact refines_null_container rfl hw
    | map element => exact refines_null_container rfl hw
  | scalar h => exact refines_scalar hequal (.scalar h) hw
  | object value hc ho hv hd ih =>
    refine refines_object hr hk hc (.object value hc ho hv hd) hw
      (equalsRefines_object hr (hn _ (.here rfl hc)) hc ho hv hd (fun p hp {w b} hw => ?_) hw)
    exact ih p hp (fun d hd => hn d (.there rfl hc hp hd)) hw
  | list items ho hd ih =>
    exact refines_list hr ho hd (fun q hq {w b} hw => ih q hq (fun d hd => hn d hd.array) hw) hw
  | map entries hkeys ho hd ih =>
    exact refines_map hr hkeys ho hd (fun e he {w b} hw => ih e he (fun d hd => hn d hd.map) hw) hw

/-! ## The members -/

section

variable {name : String} {c : ClassModel} {v w : Value} {a b : Json} {s : State}

theorem Denotes.equalsRefines {address : Nat} (hr : prog.registry.ComparesByShape)
    (hk : prog.registry.Keyed) (hequal : prog.leafEqual.Lawful)
    (hc : prog.registry.get? name = some c)
    (hn : ∀ d, prog.registry.Reaches (.ofClass name) d → EqualsNames d)
    (hv : Denotes prog.registry heap (.ofClass name) (.ref address) a)
    (hw : Denotes prog.registry heap (.ofClass name) w b) :
    EqualsRefines prog heap name c (.ref address) w a b := by
  cases hv with
  | object value hc' ho hv hd =>
    cases hc.symm.trans hc'
    refine equalsRefines_object hr (hn c (.here rfl hc)) hc ho hv hd (fun p hp {w b} hw => ?_) hw
    exact (hd p hp).refines hr hk hequal (fun d hd => hn d (.there rfl hc hp hd)) hw

/-- A value of a class is `null` or leads to an object. -/
theorem Denotes.class_cases {r : Registry} (hc : r.get? name = some c)
    (hv : Denotes r heap (.ofClass name) v a) :
    (v = .null ∧ a = .null) ∨ ∃ address o, v = .ref address ∧
      heap.object? address = some o ∧ heap.class? r v = some c := by
  cases hv with
  | null _ => exact Or.inl ⟨rfl, rfl⟩
  | object _ _ ho _ _ => exact Or.inr ⟨_, _, rfl, ho, (Heap.class?_of_object? ho).trans hc⟩

/-- `==` says whether the two trees are equal. -/
theorem yields_operatorEqual (hr : prog.registry.ComparesByShape) (hk : prog.registry.Keyed)
    (hequal : prog.leafEqual.Lawful) (hc : prog.registry.get? name = some c)
    (hn : ∀ d, prog.registry.Reaches (.ofClass name) d → EqualsNames d)
    (hv : Denotes prog.registry s.heap (.ofClass name) v a)
    (hw : Denotes prog.registry s.heap (.ofClass name) w b) :
    Yields prog (invoke .null (operatorEqual c) [v, w]) s
      (.bool (verdict prog.registry (.ofClass name) a b)) s := by
  let t : State := { s with locals := [("left", v), ("right", w)] }
  have hleft : Evaluates prog .null t (.ident "left") v := .localOf rfl
  have hright : Evaluates prog .null t (.ident "right") w := .localOf rfl
  rcases hv.class_cases hc with ⟨rfl, rfl⟩ | ⟨address, o, rfl, ho, hclass⟩
  · have hnull : Evaluates prog .null t (referenceEquals (.ident "left") .null) (.bool true) :=
      .referenceEquals hleft .null (yields_sameReference_self rfl)
    have hret : Evaluates prog .null t (referenceEquals (.ident "right") .null) (.bool b.isNull) := by
      refine .referenceEquals hright .null ?_
      cases hw with
      | null _ => exact yields_sameReference_self rfl
      | object _ _ _ _ _ => exact yields_sameReference_of_ne rfl rfl nofun
    have hbody := yields_ifThen hnull (fun _ => ⟨[], .single (yields_ret hret)⟩) nofun
    exact yields_invoke rfl (.returned hbody _) rfl
  · have hnull : Evaluates prog .null t (referenceEquals (.ident "left") .null) (.bool false) :=
      .referenceEquals hleft .null (yields_sameReference_of_ne rfl rfl nofun)
    have hequals : Yields prog (invoke (.ref address) (equalsTyped c) [w]) t
        (.bool (verdict prog.registry (.ofClass name) a b)) t :=
      (hv.equalsRefines hr hk hequal hc hn hw).yields rfl
    have hret := yields_ret (yields_equalsOf hleft hright (yields_callMethod ho hclass rfl hequals))
    exact yields_invoke rfl (.next (yields_ifThen hnull nofun fun _ => rfl) (.single hret)) rfl

/-- `!=` says whether they are not. -/
theorem yields_operatorNotEqual (hr : prog.registry.ComparesByShape) (hk : prog.registry.Keyed)
    (hequal : prog.leafEqual.Lawful) (hc : prog.registry.get? name = some c)
    (hn : ∀ d, prog.registry.Reaches (.ofClass name) d → EqualsNames d)
    (hv : Denotes prog.registry s.heap (.ofClass name) v a)
    (hw : Denotes prog.registry s.heap (.ofClass name) w b) :
    Yields prog (invoke .null (operatorNotEqual c) [v, w]) s
      (.bool !(verdict prog.registry (.ofClass name) a b)) s := by
  let t : State := { s with locals := [("left", v), ("right", w)] }
  have hleft : Evaluates prog .null t (.ident "left") v := .localOf rfl
  have hright : Evaluates prog .null t (.ident "right") w := .localOf rfl
  have hoperator : Yields prog (invoke .null (operatorEqual c) [v, w]) t
      (.bool (verdict prog.registry (.ofClass name) a b)) t :=
    yields_operatorEqual (s := t) hr hk hequal hc hn hv hw
  have hboth : Yields prog (equalOperator prog v w) t
      (.bool (verdict prog.registry (.ofClass name) a b)) t := by
    -- `==` of the class runs unless both operands are `null`
    rcases hv.class_cases hc with ⟨rfl, rfl⟩ | ⟨_, _, rfl, -, hclass⟩
    · rcases hw.class_cases hc with ⟨rfl, rfl⟩ | ⟨_, _, rfl, -, hclass⟩
      · exact yields_equalOperator_values rfl rfl (Yields.result true t)
      · exact yields_equalOperator (show _ = some c from hclass) hoperator
    · refine yields_equalOperator ?_ hoperator
      rw [show t.heap = s.heap from rfl, hclass]
      rfl
  exact yields_invoke rfl (.single (yields_ret (.not (.equalOperator hleft hright hboth)))) rfl

end

/-! ## Generated equality -/

/-- **Generated equality is equality of instances.** For a class of a registry that was built without
comparers, where no class that its objects lead to has two properties of one name or one named like a
local or parameter of its `Equals`:

* well-typed trees lie in some heap;
* wherever they lie, and whatever they share, the evaluator decides whether they are equal, and `==`
  says the same, `!=` the opposite, and `Equals` the same for a receiver that is not `null`. None of
  them meets a fault, such as a dereferenced `null`, and none changes the state. -/
theorem equalityMembers_refine {schema : Schema} {hints : HintTable} {rootClass name : String}
    {r : Registry} {c : ClassModel} {a b : Json} (equal : LeafEquality) (hequal : equal.Lawful)
    (hbuild : Registry.build schema hints rootClass = .ok r)
    (hhints : ∀ schemaId property, hints.comparer? schemaId property = none)
    (hc : r.get? name = some c)
    (hnames : ∀ d, r.Reaches (.ofClass name) d →
      (d.properties.map Property.name).Nodup ∧ EqualsNames d)
    (ha : r.fits a (.ofClass name) = true) (hb : r.fits b (.ofClass name) = true) :
    (∃ heap v w, Denotes r heap (.ofClass name) v a ∧ Denotes r heap (.ofClass name) w b) ∧
    ∀ (s : State) (v w : Value), Denotes r s.heap (.ofClass name) v a →
      Denotes r s.heap (.ofClass name) w b →
      ∃ e, r.equals name a b = .ok e ∧
        Yields { registry := r, leafEqual := equal } (invoke .null (operatorEqual c) [v, w]) s
          (.bool e) s ∧
        Yields { registry := r, leafEqual := equal } (invoke .null (operatorNotEqual c) [v, w]) s
          (.bool !e) s ∧
        (v ≠ .null → Yields { registry := r, leafEqual := equal } (invoke v (equalsTyped c) [w]) s
          (.bool e) s) := by
  have hr := Registry.comparesByShape_of_build hbuild hhints
  have hk := Registry.keyed_of_build hbuild
  have hn (d) (hd : r.Reaches (.ofClass name) d) := (hnames d hd).2
  constructor
  · have hnodup (d) (hd : r.Reaches (.ofClass name) d) := (hnames d hd).1
    obtain ⟨ext, v, hv⟩ := exists_denotes hnodup ha []
    obtain ⟨ext', w, hw⟩ := exists_denotes hnodup hb ([] ++ ext)
    exact ⟨_, v, w, hv.append ext', hw⟩
  · intro s v w hv hw
    let prog : Program := { registry := r, leafEqual := equal }
    have hrefines : Refines prog s.heap (.ofClass name) v w a b := hv.refines hr hk hequal hn hw
    refine ⟨verdict r (.ofClass name) a b, ?_, yields_operatorEqual hr hk hequal hc hn hv hw,
      yields_operatorNotEqual hr hk hequal hc hn hv hw, fun hnull => ?_⟩
    · rw [Registry.equals_eq, Registry.find_of_get? hc]
      exact hrefines.evaluates
    · rcases hv.class_cases hc with ⟨rfl, -⟩ | ⟨_, _, rfl, -, -⟩
      · exact absurd rfl hnull
      · have hequals : EqualsRefines prog s.heap name c _ w a b :=
          hv.equalsRefines hr hk hequal hc hn hw
        exact hequals.yields rfl

theorem equalityMembers_refine_trees :
    Registry.trees.equals "Tree" Registry.aTree Registry.sameTree = .ok true ∧
    ∃ c v w s, Registry.trees.get? "Tree" = some c ∧
      Denotes Registry.trees s.heap (.ofClass "Tree") v Registry.aTree ∧
      Denotes Registry.trees s.heap (.ofClass "Tree") w Registry.sameTree ∧
      Yields Registry.trees (invoke .null (operatorEqual c) [v, w]) s (.bool true) s ∧
      Yields Registry.trees (invoke .null (operatorNotEqual c) [v, w]) s (.bool false) s := by
  have hequal : Registry.trees.equals "Tree" Registry.aTree Registry.sameTree = .ok true := by decide
  have hnames (d) (hd : Registry.trees.Reaches (.ofClass "Tree") d) :
      (d.properties.map Property.name).Nodup ∧ EqualsNames d := by
    cases List.mem_singleton.1 hd.mem
    exact ⟨by decide, by unfold EqualsNames; decide⟩
  have ha : Registry.trees.fits Registry.aTree (.ofClass "Tree") = true := by decide
  have hb : Registry.trees.fits Registry.sameTree (.ofClass "Tree") = true := by decide
  obtain ⟨⟨heap, v, w, hv, hw⟩, h⟩ :=
    equalityMembers_refine .plain LeafEquality.plain_lawful build_treeSchema (fun _ _ => rfl) rfl
      hnames ha hb
  obtain ⟨e, he, hoperator, hnegated, -⟩ := h ⟨heap, []⟩ v w hv hw
  cases hequal.symm.trans he
  exact ⟨hequal, _, v, w, ⟨heap, []⟩, rfl, hv, hw, hoperator, hnegated⟩

set_option maxRecDepth 4000 in
theorem run_operatorEqual_shelves : invoke .null (operatorEqual shelfClass) [.ref 1, .ref 3]
    (engine (Registry.shelves "other") 20) ⟨shelfHeap "other", []⟩ =
      .ok (.bool false, ⟨shelfHeap "other", []⟩) := by
  rfl

/-- **A property of a class further on may be hidden by a parameter.** The names of the class of shelves
are in order. But boxes have a property that is named like the parameter of `Equals`, so that there
`Object.Equals(other, other.other)` compares a box with what is in it. -/
theorem operatorEqual_differs_hidden :
    Registry.build shelfSchema (boxHints "other") "Root" = .ok (Registry.shelves "other") ∧
    (∀ schemaId property, (boxHints "other").comparer? schemaId property = none) ∧
    (Registry.shelves "other").get? "Shelf" = some shelfClass ∧
    (shelfClass.properties.map Property.name).Nodup ∧ EqualsNames shelfClass ∧
    (Registry.shelves "other").fits Registry.aShelf (.ofClass "Shelf") = true ∧
    ∃ s v w, Denotes (Registry.shelves "other") s.heap (.ofClass "Shelf") v Registry.aShelf ∧
      Denotes (Registry.shelves "other") s.heap (.ofClass "Shelf") w Registry.aShelf ∧
      (Registry.shelves "other").equals "Shelf" Registry.aShelf Registry.aShelf = .ok true ∧
      ¬ ∃ t, Yields (Registry.shelves "other") (invoke .null (operatorEqual shelfClass) [v, w]) s
        (.bool true) t := by
  refine ⟨build_shelfSchema "other", boxHints_comparer? "other", rfl, by decide,
    by unfold EqualsNames; decide, rfl, ⟨shelfHeap "other", []⟩, .ref 1, .ref 3,
    denotes_shelf rfl rfl, denotes_shelf rfl rfl, by decide, ?_⟩
  rintro ⟨t, hrun⟩
  cases (hrun.eq_of_engine run_operatorEqual_shelves).1

end Machine

end Classwright
