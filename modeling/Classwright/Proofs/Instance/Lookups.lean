import Classwright.Proofs.Instance.Hash
import Classwright.Proofs.Instance.Visit
import Classwright.Proofs.Model.Locality

/-!
# Classes that are not there

A model may name classes that do not exist: a reference to a definition that is not there gives a
property of such a class. Members fail when they come to a value of it. Hashing, comparing a value with
itself, copying and visiting are walks of their own, and visiting passes over properties that hold no
class at all; still all four come to the same class first.

## The architecture

* **`Registry.lookUp`** — the walk that looks classes up and does nothing else, in the order in which the
  properties, items and entries stand.
* **`outcome`** — a result without its value. Loops whose steps have the outcomes of other steps have the
  outcome of the plain loop over these (`outcome_foldlM`, `outcome_mapM`, `allM_eq_forM`).
* **`outcome_hashInto`**, **`equalValues_lookUp`**, **`outcome_copyValue`**, **`outcome_visitValue`** — each
  of the four walks succeeds or fails as the lookups do. One induction over values each.
-/

namespace Classwright

/-! ## Outcomes -/

section

variable {α β ε : Type}

/-- A result without its value: whether it is there, or else the fault. -/
def outcome (x : Except ε α) : Except ε Unit := x.map fun _ => ()

theorem outcome_eq_ok {x : Except ε α} : outcome x = .ok () ↔ ∃ y, x = .ok y := by
  cases x <;> simp [outcome, Except.map]

theorem outcome_eq_error {x : Except ε α} {fault : ε} :
    outcome x = .error fault ↔ x = .error fault := by
  cases x <;> simp [outcome, Except.map]

/-- What is made of a value does not count. -/
theorem outcome_bind_ok (x : Except ε α) (f : α → β) :
    outcome (x.bind fun y => .ok (f y)) = outcome x := by
  cases x <;> rfl

theorem outcome_map (x : Except ε α) (f : α → β) : outcome (x.map f) = outcome x := by
  cases x <;> rfl

/-- A loop that carries a value from step to step. -/
theorem outcome_foldlM {f : β → α → Except ε β} {g : α → Except ε Unit} {l : List α}
    (h : ∀ acc, ∀ x ∈ l, outcome (f acc x) = g x) (acc : β) : outcome (l.foldlM f acc) = forM l g := by
  induction l generalizing acc with
  | nil => rfl
  | cons x l ih =>
    rw [List.foldlM_cons, List.forM_cons, ← h acc x List.mem_cons_self]
    cases f acc x with
    | error fault => rfl
    | ok next => exact ih (fun acc y hy => h acc y (List.mem_cons_of_mem _ hy)) next

/-- A loop that keeps a list of values. -/
theorem outcome_mapM {f : α → Except ε β} {g : α → Except ε Unit} {l : List α}
    (h : ∀ x ∈ l, outcome (f x) = g x) : outcome (l.mapM f) = forM l g := by
  induction l with
  | nil => rfl
  | cons x l ih =>
    rw [List.mapM_cons, List.forM_cons, ← h x List.mem_cons_self,
      ← ih fun y hy => h y (List.mem_cons_of_mem _ hy)]
    cases f x with
    | error fault => rfl
    | ok y => cases l.mapM f <;> rfl

/-- Tests each of which passes or fails with a fault. -/
theorem allM_eq_forM {p : α → Except ε Bool} {g : α → Except ε Unit} {l : List α}
    (h : ∀ x ∈ l, p x = (g x).map fun _ => true) : l.allM p = (forM l g).map fun _ => true := by
  induction l with
  | nil => rfl
  | cons x l ih =>
    rw [List.allM, List.forM_cons, h x List.mem_cons_self,
      ih fun y hy => h y (List.mem_cons_of_mem _ hy)]
    cases g x <;> rfl

theorem forM_eq_ok {g : α → Except ε Unit} {l : List α} (h : ∀ x ∈ l, g x = .ok ()) :
    forM l g = .ok () := by
  induction l with
  | nil => rfl
  | cons x l ih =>
    rw [List.forM_cons, h x List.mem_cons_self]
    exact ih fun y hy => h y (List.mem_cons_of_mem _ hy)

/-- A fault of a loop is that of a step. -/
theorem exists_of_forM_eq_error {g : α → Except ε Unit} {l : List α} {fault : ε}
    (h : forM l g = .error fault) : ∃ x ∈ l, g x = .error fault := by
  induction l with
  | nil => cases h
  | cons x l ih =>
    rw [List.forM_cons] at h
    cases hx : g x with
    | error fault' =>
      rw [hx] at h
      cases h
      exact ⟨x, List.mem_cons_self, hx⟩
    | ok u =>
      rw [hx] at h
      obtain ⟨y, hy, hfault⟩ := ih h
      exact ⟨y, List.mem_cons_of_mem _ hy, hfault⟩

/-- Steps that do nothing can be left out. -/
theorem forM_filter {g : α → Except ε Unit} {p : α → Bool} {l : List α}
    (h : ∀ x ∈ l, p x = false → g x = .ok ()) : forM (l.filter p) g = forM l g := by
  induction l with
  | nil => rfl
  | cons x l ih =>
    have hrest := ih fun y hy => h y (List.mem_cons_of_mem _ hy)
    rw [List.filter_cons, List.forM_cons]
    cases hp : p x with
    | true => rw [if_pos rfl, List.forM_cons, hrest]
    | false =>
      rw [if_neg Bool.false_ne_true, hrest, h x List.mem_cons_self hp]
      rfl

end

/-! ## Lookups -/

/-- Looks up the classes that a value leads to, by its shape. -/
abbrev Lookup := Shape → Except InstanceFault Unit

namespace Registry

/-- One step of `lookUp`. -/
def lookUpStep (r : Registry) (v : Json) (items : List Lookup) (fields : Fields Lookup) : Lookup :=
  fun shape =>
    match shape, v with
    | _, .null => .ok ()
    | .ofClass name, _ => do
      let c ← r.find name
      forM c.properties fun p => (Fields.get? fields p.jsonName).getD (fun _ => .ok ()) p.shape
    | .array element, .list _ => forM items fun look => look element
    | .map element, .object _ => forM fields fun (_, look) => look element
    | _, _ => .ok ()

/-- Looks up the classes that a value leads to, one after another. -/
def lookUp (r : Registry) : Json → Lookup := Json.walk r.lookUpStep

variable (r : Registry)

theorem lookUp_eq (v : Json) :
    r.lookUp v = r.lookUpStep v (v.items.map r.lookUp) (Fields.mapValues r.lookUp v.fields) :=
  Json.walk_eq r.lookUpStep v

theorem lookUp_null : r.lookUp .null = fun _ => .ok () := by
  funext shape
  cases shape <;> rfl

/-- What no comparison looks into leads to no class. -/
theorem lookUp_of_not_opens {v : Json} {shape : Shape} (h : shape.comparison.opens v v = false) :
    r.lookUp v shape = .ok () := by
  rw [lookUp_eq]
  cases shape with
  | scalar p => cases v <;> rfl
  | ofClass name =>
    cases v with
    | null => rfl
    | _ => cases h
  | array element =>
    cases v with
    | list items => cases h
    | _ => rfl
  | map element =>
    cases v with
    | object fields => cases h
    | _ => rfl

/-- An instance leads to its class, and then to what its properties lead to. -/
theorem lookUp_ofClass {v : Json} (hv : v.isNull = false) (name : String) :
    r.lookUp v (.ofClass name) = (r.find name).bind fun c =>
      forM c.properties fun p => r.lookUp (v.part p.jsonName) p.shape := by
  have hpart (key : String) : (Fields.get? (Fields.mapValues r.lookUp v.fields) key).getD
      (fun _ => .ok ()) = r.lookUp (v.part key) := by
    rw [← r.lookUp_null]
    exact Json.getD_get?_walk r.lookUpStep v key
  rw [lookUp_eq]
  cases v with
  | null => cases hv
  | _ => simp only [lookUpStep, hpart]; rfl

theorem lookUp_array (items : List Json) (element : Shape) :
    r.lookUp (.list items) (.array element) = forM items fun v => r.lookUp v element := by
  rw [lookUp_eq]
  simp only [lookUpStep, Json.items, List.forM_map]

theorem lookUp_map (fields : List (String × Json)) (element : Shape) :
    r.lookUp (.object fields) (.map element) = forM fields fun f => r.lookUp f.2 element := by
  rw [lookUp_eq]
  simp only [lookUpStep, Json.fields, Fields.mapValues, List.forM_map]

/-- A lookup fails only at a class that is not there. -/
theorem unknownClass_of_lookUp {v : Json} {shape : Shape} {fault : InstanceFault}
    (h : r.lookUp v shape = .error fault) : ∃ missing, fault = .unknownClass missing := by
  induction v using Json.ind_parts generalizing shape with
  | step v items fields parts =>
    cases ho : shape.comparison.opens v v with
    | false => cases (r.lookUp_of_not_opens ho).symm.trans h
    | true =>
      cases shape with
      | scalar p => cases ho
      | ofClass name =>
        have hv := (Comparison.not_null_of_opens ho).1
        rw [lookUp_ofClass r hv, find] at h
        split at h
        · obtain ⟨p, -, hp⟩ := exists_of_forM_eq_error h
          exact parts hv p.jsonName hp
        · cases h
          exact ⟨name, rfl⟩
      | array element =>
        obtain ⟨xs, -, rfl, -⟩ := Comparison.lists_of_opens ho
        rw [lookUp_array] at h
        obtain ⟨x, hx, hfault⟩ := exists_of_forM_eq_error h
        exact items x hx hfault
      | map element =>
        obtain ⟨xs, -, rfl, -⟩ := Comparison.objects_of_opens ho
        rw [lookUp_map] at h
        obtain ⟨f, hf, hfault⟩ := exists_of_forM_eq_error h
        exact fields f hf hfault

/-- Without a class in the shape there is nothing to look up. -/
theorem lookUp_of_no_class {v : Json} {shape : Shape} (h : shape.containsClass = false) :
    r.lookUp v shape = .ok () := by
  induction v using Json.ind_parts generalizing shape with
  | step v items fields _ =>
    cases ho : shape.comparison.opens v v with
    | false => exact r.lookUp_of_not_opens ho
    | true =>
      cases shape with
      | scalar p => cases ho
      | ofClass name => cases h
      | array element =>
        obtain ⟨xs, -, rfl, -⟩ := Comparison.lists_of_opens ho
        rw [lookUp_array]
        exact forM_eq_ok fun x hx => items x hx h
      | map element =>
        obtain ⟨xs, -, rfl, -⟩ := Comparison.objects_of_opens ho
        rw [lookUp_map]
        exact forM_eq_ok fun f hf => fields f hf h

/-! ## The four walks -/

variable {r}

/-- The hash of an instance, from those of its properties. -/
theorem outcome_hashProperties {leaf : LeafHash} {c : ClassModel} {v : Json}
    (h : ∀ p ∈ c.properties, ∀ acc,
      outcome (r.hashInto leaf (v.part p.jsonName) p.evaluated p.shape acc) =
        r.lookUp (v.part p.jsonName) p.shape) :
    outcome (hashProperties c fun key => r.hashInto leaf (v.part key)) =
      forM c.properties fun p => r.lookUp (v.part p.jsonName) p.shape :=
  outcome_foldlM (fun acc p hp => h p hp acc) hashSeed

/-- **Hashing fails as the lookups do.** -/
theorem outcome_hashInto (leaf : LeafHash) (he : r.EvaluatesByShape) (v : Json) (shape : Shape)
    (acc : Int32) :
    outcome (r.hashInto leaf v shape.comparison shape acc) = r.lookUp v shape := by
  induction v using Json.ind_parts generalizing shape acc with
  | step v items fields parts =>
    cases ho : shape.comparison.opens v v with
    | false =>
      rw [lookUp_of_not_opens r ho]
      cases hv : v.isNull with
      | true =>
        cases Json.eq_null_of_isNull hv
        obtain ⟨n, hn, -⟩ := hashNull_agree shape.comparison shape acc
        exact outcome_eq_ok.2 ⟨n, hn⟩
      | false => exact outcome_eq_ok.2 ⟨_, hashInto_of_not_opens leaf r hv ho shape acc⟩
    | true =>
      cases shape with
      | scalar p => cases ho
      | ofClass name =>
        have hv := (Comparison.not_null_of_opens ho).1
        rw [Shape.comparison, hashInto_structural leaf r hv, lookUp_ofClass r hv]
        cases hc : r.find name with
        | error fault => rfl
        | ok c =>
          refine (outcome_bind_ok _ _).trans (outcome_hashProperties fun p hp acc => ?_)
          rw [he c (mem_of_find hc) p hp]
          exact parts hv p.jsonName p.shape acc
      | array element =>
        obtain ⟨xs, -, rfl, -⟩ := Comparison.lists_of_opens ho
        rw [Shape.comparison, hashInto_sequence, lookUp_array]
        exact outcome_foldlM (fun acc x hx => items x hx element acc) acc
      | map element =>
        obtain ⟨xs, -, rfl, -⟩ := Comparison.objects_of_opens ho
        rw [Shape.comparison, hashInto_unordered, lookUp_map, outcome_bind_ok]
        refine outcome_foldlM (fun sum f hf => ?_) 0
        exact (outcome_bind_ok _ _).trans (fields f hf element (leaf.text f.1))

/-- **A value is equal to itself where the lookups succeed**, and else the test fails as they do. -/
theorem equalValues_lookUp (he : r.EvaluatesByShape) {v : Json} (hk : v.distinctKeys = true)
    (shape : Shape) :
    r.equalValues v shape.comparison shape v = (r.lookUp v shape).map fun _ => true := by
  induction v using Json.ind_parts generalizing shape with
  | step v items fields parts =>
    cases ho : shape.comparison.opens v v with
    | false =>
      rw [lookUp_of_not_opens r ho]
      exact (equalValues_true_of_not_opens r ho).2 (Json.order_self v)
    | true =>
      cases shape with
      | scalar p => cases ho
      | ofClass name =>
        have hv := (Comparison.not_null_of_opens ho).1
        rw [Shape.comparison, equalValues_structural r hv hv, lookUp_ofClass r hv]
        cases hc : r.find name with
        | error fault => rfl
        | ok c =>
          refine allM_eq_forM fun p hp => ?_
          rw [he c (mem_of_find hc) p hp]
          exact parts hv p.jsonName (Json.distinctKeys_part hk _) p.shape
      | array element =>
        obtain ⟨xs, -, rfl, -⟩ := Comparison.lists_of_opens ho
        have hzip : xs.zip xs = xs.map fun x => (x, x) := by
          simpa using List.zip_map' (l := xs) (f := id) (g := id)
        rw [Shape.comparison, equalValues_sequence, if_pos rfl, lookUp_array, hzip, allM_map]
        exact allM_eq_forM fun x hx => items x hx (Json.distinctKeys_list.1 hk x hx) element
      | map element =>
        obtain ⟨xs, -, rfl, -⟩ := Comparison.objects_of_opens ho
        obtain ⟨hd, hvalues⟩ := Json.distinctKeys_object.1 hk
        rw [Shape.comparison, equalValues_unordered, if_pos rfl, lookUp_map]
        refine allM_eq_forM fun f hf => ?_
        -- the key of an entry leads back to the entry
        dsimp only
        rw [Fields.get?_of_mem hd hf]
        exact fields f hf (hvalues f hf) element

/-- **Copying fails as the lookups do.** -/
theorem outcome_copyValue (v : Json) (shape : Shape) :
    outcome (r.copyValue v shape) = r.lookUp v shape := by
  induction v using Json.ind_parts generalizing shape with
  | step v items fields parts =>
    cases ho : shape.comparison.opens v v with
    | false => rw [lookUp_of_not_opens r ho, copyValue_of_not_opens r ho, outcome, Except.map]
    | true =>
      cases shape with
      | scalar p => cases ho
      | ofClass name =>
        have hv := (Comparison.not_null_of_opens ho).1
        rw [lookUp_ofClass r hv]
        cases hc : r.find name with
        | error fault => rw [copyValue_of_unknown r hv hc, outcome, Except.map, Except.bind]
        | ok c =>
          rw [copyValue_ofClass r hv hc, outcome_map]
          refine outcome_foldlM (fun done p hp => ?_) []
          exact (outcome_map _ _).trans (parts hv p.jsonName p.shape)
      | array element =>
        obtain ⟨xs, -, rfl, -⟩ := Comparison.lists_of_opens ho
        rw [copyValue_list, lookUp_array, outcome_bind_ok]
        exact outcome_mapM fun x hx => items x hx element
      | map element =>
        obtain ⟨xs, -, rfl, -⟩ := Comparison.objects_of_opens ho
        rw [copyValue_object, lookUp_map, outcome_bind_ok]
        exact outcome_mapM fun f hf => (outcome_map _ _).trans (fields f hf element)

/-- The visit of the properties of an instance. Those that are passed over lead to no class. -/
theorem outcome_visitProperties {f : String → Json → Json} {c : ClassModel} {given : Fields Json}
    (hv : ∀ p ∈ c.properties, p.isVisitable = p.shape.containsClass)
    (h : ∀ e ∈ given, ∀ shape, outcome (r.visitValue f e.2 shape) = r.lookUp e.2 shape) :
    outcome (visitProperties c given (Fields.mapValues (r.visitValue f) given)) =
      forM c.properties fun p => r.lookUp ((Json.object given).part p.jsonName) p.shape := by
  let look (p : Property) := r.lookUp ((Json.object given).part p.jsonName) p.shape
  have hvisitable : forM c.visitable look = forM c.properties look := by
    refine forM_filter fun p hmem hp => ?_
    exact r.lookUp_of_no_class ((hv p hmem).symm.trans hp)
  rw [visitProperties_eq_foldlM, ← hvisitable]
  refine outcome_foldlM (fun acc p _ => ?_) _
  dsimp only [look]
  rw [visitPart, Fields.get?_mapValues, Json.part_eq, Json.fields]
  cases hget : given.get? p.jsonName with
  | none =>
    rw [Option.getD_none, lookUp_null]
    rfl
  | some v => exact (outcome_bind_ok _ _).trans (h _ (Fields.mem_of_get? hget) p.shape)

/-- **Visiting fails as the lookups do**, whatever the substitution. -/
theorem outcome_visitValue (hvisits : r.VisitsByShape) (f : String → Json → Json) (v : Json)
    (shape : Shape) : outcome (r.visitValue f v shape) = r.lookUp v shape := by
  induction v using Json.ind_parts generalizing shape with
  | step v items fields parts =>
    cases ho : shape.comparison.opens v v with
    | false => rw [lookUp_of_not_opens r ho, visitValue_of_not_opens ho, outcome, Except.map]
    | true =>
      cases shape with
      | scalar p => cases ho
      | ofClass name =>
        have hv := (Comparison.not_null_of_opens ho).1
        rw [lookUp_ofClass r hv]
        cases hc : r.find name with
        | error fault => rw [visitValue_of_unknown hv hc, outcome, Except.map, Except.bind]
        | ok c =>
          cases v with
          | null => cases hv
          | object given =>
            rw [visitValue_ofClass hc, outcome_bind_ok]
            exact outcome_visitProperties (hvisits c (mem_of_find hc)) fields
          | _ =>
            -- what is no object has no parts, so nothing is looked up for its properties
            have hnone : forM c.properties (fun p => r.lookUp .null p.shape) = .ok () :=
              forM_eq_ok fun p _ => congrFun r.lookUp_null p.shape
            rw [visitValue_eq]
            simp only [visitStep, hc]
            exact hnone.symm
      | array element =>
        obtain ⟨xs, -, rfl, -⟩ := Comparison.lists_of_opens ho
        rw [visitValue_list, lookUp_array, outcome_bind_ok]
        exact outcome_mapM fun x hx => items x hx element
      | map element =>
        obtain ⟨xs, -, rfl, -⟩ := Comparison.objects_of_opens ho
        rw [visitValue_object, lookUp_map, outcome_bind_ok]
        exact outcome_mapM fun e he => (outcome_map _ _).trans (fields e he element)

/-! ## Instances -/

theorem outcome_hash (leaf : LeafHash) (he : r.EvaluatesByShape) {v : Json} (hv : v.isNull = false)
    (name : String) : outcome (r.hash leaf name v) = r.lookUp v (.ofClass name) := by
  rw [lookUp_ofClass r hv, hash]
  cases hc : r.find name with
  | error fault => rfl
  | ok c =>
    refine outcome_hashProperties fun p hp acc => ?_
    rw [he c (mem_of_find hc) p hp]
    exact outcome_hashInto leaf he _ p.shape acc

theorem outcome_equals (he : r.EvaluatesByShape) {v : Json} (hv : v.isNull = false)
    (hk : v.distinctKeys = true) (name : String) :
    outcome (r.equals name v v) = r.lookUp v (.ofClass name) := by
  have hequal := equalValues_lookUp he hk (.ofClass name)
  rw [equals_eq]
  cases hc : r.find name with
  | error fault =>
    rw [lookUp_ofClass r hv, hc]
    rfl
  | ok c =>
    rw [Except.bind, ← Shape.comparison, hequal, outcome_map]
    cases r.lookUp v (.ofClass name) <;> rfl

/-- **Members fail together.** In a model built from a schema, which may name classes that are not there,
and for every class name and every value but `null`, either hashing the value, comparing it with itself,
copying it and visiting it all succeed, or all of them fail, at the same class. Values that are read
repeat no key (`Json.distinctKeys_collapse`). -/
theorem members_fail_together {schema : Schema} {hints : HintTable} {rootClass : String}
    (hbuild : Registry.build schema hints rootClass = .ok r) (name : String) {v : Json}
    (hv : v.isNull = false) (hk : v.distinctKeys = true) :
    ((∀ leaf, ∃ n, r.hash leaf name v = .ok n) ∧
      (∃ e, r.equals name v v = .ok e) ∧
      (∃ copy, r.deepClone name v = .ok copy) ∧
      ∀ f, ∃ visited, r.visit f name v = .ok visited) ∨
    ∃ missing,
      (∀ leaf, r.hash leaf name v = .error (.unknownClass missing)) ∧
      r.equals name v v = .error (.unknownClass missing) ∧
      r.deepClone name v = .error (.unknownClass missing) ∧
      ∀ f, r.visit f name v = .error (.unknownClass missing) := by
  have he := evaluatesByShape_of_build hbuild
  have hhash (leaf : LeafHash) := outcome_hash leaf he hv name
  have hequals := outcome_equals he hv hk name
  have hcopy : outcome (r.deepClone name v) = r.lookUp v (.ofClass name) := by
    rw [deepClone, if_neg (by simp [hv]), outcome_copyValue]
  have hvisit (f : String → Json → Json) :
      outcome (r.visit f name v) = r.lookUp v (.ofClass name) := by
    rw [visit, if_neg (by simp [hv]), outcome_visitValue (visitsByShape_of_build hbuild)]
  cases hlook : r.lookUp v (.ofClass name) with
  | ok u =>
    obtain ⟨⟩ := u
    simp only [hlook, outcome_eq_ok] at hhash hequals hcopy hvisit
    exact Or.inl ⟨hhash, hequals, hcopy, hvisit⟩
  | error fault =>
    obtain ⟨missing, rfl⟩ := r.unknownClass_of_lookUp hlook
    simp only [hlook, outcome_eq_error] at hhash hequals hcopy hvisit
    exact Or.inr ⟨missing, hhash, hequals, hcopy, hvisit⟩

/-- The class of the part does not exist: with a part every member fails, and without one none does. -/
theorem members_fail_together_holder :
    Registry.build holderSchema holderHints "Root" = .ok (holder "Widget") ∧
      ((holder "Widget").hash .sip "Holder" (.object [("part", .bool true)]) =
          .error (.unknownClass "Widget") ∧
        (holder "Widget").visit (fun _ v => v) "Holder" (.object [("part", .bool true)]) =
          .error (.unknownClass "Widget")) ∧
      (∃ n, (holder "Widget").hash .sip "Holder" (.object [("part", .null)]) = .ok n) ∧
      ∃ visited, (holder "Widget").visit (fun _ v => v) "Holder" (.object [("part", .null)]) =
        .ok visited := by
  have hbuild := build_holderSchema.1
  refine ⟨hbuild, ?_, ?_⟩
  · have hcopy : (holder "Widget").deepClone "Holder" (.object [("part", .bool true)]) =
        .error (.unknownClass "Widget") := rfl
    rcases members_fail_together (v := .object [("part", .bool true)]) hbuild "Holder" rfl
      (by decide) with ⟨-, -, ⟨copy, hok⟩, -⟩ | ⟨missing, hhash, -, hfault, hvisit⟩
    · cases hcopy.symm.trans hok
    · cases hcopy.symm.trans hfault
      exact ⟨hhash .sip, hvisit _⟩
  · have hcopy : (holder "Widget").deepClone "Holder" (.object [("part", .null)]) =
        .ok (.object []) := rfl
    rcases members_fail_together (v := .object [("part", .null)]) hbuild "Holder" rfl
      (by decide) with ⟨hhash, -, -, hvisit⟩ | ⟨missing, -, -, hfault, -⟩
    · exact ⟨hhash .sip, hvisit _⟩
    · cases hcopy.symm.trans hfault

end Registry

end Classwright
