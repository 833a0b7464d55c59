import Classwright.Proofs.Instance.Hash
import Classwright.Proofs.Instance.Order
import Classwright.Proofs.Model.Build

/-!
# Walks in lockstep

Equality, hashes and the order take a comparison and a shape apart side by side. The element of a shape
that has none is an opaque one, so a walk whose comparison has drifted from its shape goes on silently.
From a comparison in lockstep with its shape no walk drifts: it does not matter what it would do where
the two do not fit.

* **`Comparison.Lockstep`** — a comparison and a shape that go together level by level.
* **`Classwright.guarded`** — a step that gives up, with any answer, where a container comparison meets
  another shape than that of its container. Elsewhere no element of a shape is taken, so a guarded walk
  takes elements of lists and maps only.
* **`StaysInStep`** — from a pair in lockstep, a step goes on with such pairs only. One lemma for each
  evaluator says so of its step.
* **`walk_guarded`** — then a guarded walk is the walk itself.
-/

namespace Classwright

/-! ## Comparisons and shapes -/

namespace Comparison

/-- A comparison goes with a shape, at every level. -/
inductive Lockstep : Comparison → Shape → Prop where
  | value (p : Primitive) : Lockstep .value (.scalar p)
  | structural (name : String) : Lockstep (.structural name) (.ofClass name)
  | sequence {inner : Comparison} {element : Shape} (h : Lockstep inner element) :
    Lockstep (.sequence inner) (.array element)
  | unordered {inner : Comparison} {element : Shape} (h : Lockstep inner element) :
    Lockstep (.unordered inner) (.map element)

theorem lockstep_comparison (shape : Shape) : Lockstep shape.comparison shape := by
  induction shape with
  | scalar p => exact .value p
  | ofClass name => exact .structural name
  | array element ih => exact .sequence ih
  | map element ih => exact .unordered ih

/-- Just one comparison is in lockstep with a shape. -/
theorem lockstep_iff {comparison : Comparison} {shape : Shape} :
    Lockstep comparison shape ↔ comparison = shape.comparison := by
  constructor
  · intro h
    induction h with
    | value p => rfl
    | structural name => rfl
    | sequence _ ih => exact congrArg Comparison.sequence ih
    | unordered _ ih => exact congrArg Comparison.unordered ih
  · rintro rfl
    exact lockstep_comparison shape

/-- Whether a shape has the elements that a comparison goes through, if it goes through any. -/
def fits : Comparison → Shape → Bool
  | .sequence _, .array _ | .unordered _, .map _ => true
  | .sequence _, _ | .unordered _, _ => false
  | _, _ => true

theorem Lockstep.fits {comparison : Comparison} {shape : Shape} (h : Lockstep comparison shape) :
    comparison.fits shape = true := by
  cases h <;> rfl

end Comparison

/-! ## Guarded walks -/

section

variable {β : Type}

/-- One step of a walk whose results wait for a comparison and a shape. -/
abbrev PairStep (β : Type) :=
  Json → List (Comparison → Shape → β) → Fields (Comparison → Shape → β) → Comparison → Shape → β

/-- A step that gives up where a comparison goes through elements that its shape does not have. -/
def guarded (refusal : β) (step : PairStep β) : PairStep β :=
  fun v items fields comparison shape =>
    if comparison.fits shape then step v items fields comparison shape else refusal

/-- Two results are the same for comparisons in lockstep with their shapes. -/
def AgreeInStep (f g : Comparison → Shape → β) : Prop :=
  ∀ comparison shape, comparison.Lockstep shape → f comparison shape = g comparison shape

/-- From a comparison in lockstep with its shape, a step asks for the results of parts at such pairs
only. -/
def StaysInStep (step : PairStep β) : Prop :=
  ∀ (v : Json) (f g : Json → Comparison → Shape → β),
    (∀ x ∈ v.items, AgreeInStep (f x) (g x)) →
    (∀ e ∈ v.fields, AgreeInStep (f e.2) (g e.2)) →
    AgreeInStep (step v (v.items.map f) (Fields.mapValues f v.fields))
      (step v (v.items.map g) (Fields.mapValues g v.fields))

/-- **A walk that stays in step takes elements of lists and maps only.** -/
theorem walk_guarded {step : PairStep β} (h : StaysInStep step) (refusal : β) (v : Json) :
    AgreeInStep (Json.walk (guarded refusal step) v) (Json.walk step v) := by
  induction v using Json.ind_parts with
  | step v items fields _ =>
    intro comparison shape hstep
    rw [Json.walk_eq, Json.walk_eq step, guarded, if_pos hstep.fits]
    exact h v _ _ items fields comparison shape hstep

/-- What a field gives, or what there is instead of one. -/
theorem agreeInStep_getD_get? {fields : Fields Json} {f g : Json → Comparison → Shape → β}
    (h : ∀ e ∈ fields, AgreeInStep (f e.2) (g e.2)) (key : String) (instead : Comparison → Shape → β) :
    AgreeInStep ((Fields.get? (Fields.mapValues f fields) key).getD instead)
      ((Fields.get? (Fields.mapValues g fields) key).getD instead) := by
  intro comparison shape hstep
  rw [Fields.get?_mapValues, Fields.get?_mapValues]
  cases hf : Fields.get? fields key with
  | none => rfl
  | some w => exact h _ (Fields.mem_of_get? hf) comparison shape hstep

end

/-! ## The steps of the evaluators -/

theorem allM_congr {α ε : Type} {f g : α → Except ε Bool} {l : List α} (h : ∀ x ∈ l, f x = g x) :
    l.allM f = l.allM g := by
  induction l with
  | nil => rfl
  | cons x l ih =>
    rw [List.forall_mem_cons] at h
    simp only [List.allM, h.1, ih h.2]

theorem firstUnequal_congr {α : Type} {f g : α → Except InstanceFault Ordering} {l : List α}
    (h : ∀ x ∈ l, f x = g x) : firstUnequal f l = firstUnequal g l := by
  induction l with
  | nil => rfl
  | cons x l ih =>
    rw [List.forall_mem_cons] at h
    simp only [firstUnequal, h.1, ih h.2]

theorem foldlM_congr {α β ε : Type} {f g : β → α → Except ε β} {l : List α}
    (h : ∀ x ∈ l, ∀ acc, f acc x = g acc x) (acc : β) : l.foldlM f acc = l.foldlM g acc := by
  induction l generalizing acc with
  | nil => rfl
  | cons x l ih =>
    rw [List.forall_mem_cons] at h
    simp only [List.foldlM_cons, h.1, ih h.2]

namespace Registry

variable {r : Registry}

/-- What is done with the class of a name, if it is done alike with every class there is. -/
theorem find_bind_congr {α : Type} {next next' : ClassModel → Except InstanceFault α}
    (h : ∀ c ∈ r.classes, next c = next' c) (name : String) :
    (r.find name >>= next) = (r.find name >>= next') := by
  cases hc : r.find name with
  | error e => rfl
  | ok c => exact h c (mem_of_find hc)

/-- The properties of a class are evaluated in lockstep with their shapes. -/
theorem EvaluatesByShape.lockstep (he : r.EvaluatesByShape) {c : ClassModel} (hc : c ∈ r.classes)
    {p : Property} (hp : p ∈ c.properties) : p.evaluated.Lockstep p.shape :=
  Comparison.lockstep_iff.2 (he c hc p hp)

theorem staysInStep_equalStep (he : r.EvaluatesByShape) : StaysInStep r.equalStep := by
  intro v f g items fields comparison shape hstep
  funext b
  cases hstep with
  | value p => rfl
  | structural name =>
    -- here the pair is that of each property, whatever the comparison of the class was
    have hnext (c) (hc : c ∈ r.classes) : equalProperties c (Fields.mapValues f v.fields) b =
        equalProperties c (Fields.mapValues g v.fields) b :=
      allM_congr fun p hp => congrFun
        (agreeInStep_getD_get? fields p.jsonName equalNull _ _ (he.lockstep hc hp)) _
    simp only [equalStep, find_bind_congr hnext]
  | sequence hinner =>
    -- two lists are gone through, and everything else is compared as a whole
    cases v with
    | list xs =>
      cases b with
      | list ys =>
        simp only [equalStep, Json.isNull, Bool.or_self, Bool.false_eq_true, if_false, Json.items,
          List.length_map, List.zip_map_left, allM_map]
        refine if_congr Iff.rfl (allM_congr fun q hq => ?_) rfl
        exact congrFun (items q.1 (List.of_mem_zip hq).1 _ _ hinner) q.2
      | _ => rfl
    | _ => rfl
  | unordered hinner =>
    cases v with
    | object xs =>
      cases b with
      | object ys =>
        simp only [equalStep, Json.isNull, Bool.or_self, Bool.false_eq_true, if_false, Json.fields,
          Fields.length_mapValues]
        refine if_congr Iff.rfl ?_ rfl
        rw [Fields.mapValues, Fields.mapValues, allM_map, allM_map]
        refine allM_congr fun e hmem => ?_
        cases Fields.get? ys e.1 with
        | none => rfl
        | some y => exact congrFun (fields e hmem _ _ hinner) y
      | _ => rfl
    | _ => rfl

theorem staysInStep_hashStep (he : r.EvaluatesByShape) (leaf : LeafHash) :
    StaysInStep (r.hashStep leaf) := by
  intro v f g items fields comparison shape hstep
  funext acc
  cases hstep with
  | value p => cases v <;> rfl
  | structural name =>
    have hnext (c) (hc : c ∈ r.classes) :
        hashProperties c (fun key => (Fields.get? (Fields.mapValues f v.fields) key).getD hashNull) =
          hashProperties c (fun key =>
            (Fields.get? (Fields.mapValues g v.fields) key).getD hashNull) :=
      foldlM_congr (fun p hp acc => congrFun
        (agreeInStep_getD_get? fields p.jsonName hashNull _ _ (he.lockstep hc hp)) acc) _
    cases v with
    | null => rfl
    | _ => exact find_bind_congr (fun c hc => by rw [hnext c hc]) name
  | sequence hinner =>
    cases v with
    | list xs =>
      simp only [hashStep, Json.items, List.foldlM_map]
      exact foldlM_congr (fun x hx acc => congrFun (items x hx _ _ hinner) acc) acc
    | _ => rfl
  | unordered hinner =>
    cases v with
    | object xs =>
      simp only [hashStep, Json.fields, Fields.mapValues, List.foldlM_map, Shape.element]
      rw [foldlM_congr fun e hmem sum => ?_]
      rw [fields e hmem _ _ hinner]
    | _ => rfl

theorem staysInStep_orderStep (he : r.EvaluatesByShape) : StaysInStep r.orderStep := by
  intro v f g items fields comparison shape hstep
  funext b
  cases hstep with
  | value p => rfl
  | structural name =>
    have hnext (c) (hc : c ∈ r.classes) :=
      firstUnequal_congr (l := c.properties) fun p hp => congrFun
        (agreeInStep_getD_get? fields p.jsonName orderNull _ _ (he.lockstep hc hp))
          (b.part p.jsonName)
    simp only [orderStep, find_bind_congr hnext]
  | sequence hinner =>
    cases v with
    | list xs =>
      cases b with
      | list ys =>
        have hzip : ∀ q ∈ xs.zip ys, f q.1 _ _ q.2 = g q.1 _ _ q.2 := fun q hq =>
          congrFun (items q.1 (List.of_mem_zip hq).1 _ _ hinner) q.2
        simp only [orderStep, Json.isNull, Bool.false_eq_true, if_false, Json.items, List.length_map,
          List.zip_map_left, firstUnequal_map, Prod.map, id, Shape.element, firstUnequal_congr hzip]
      | _ => rfl
    | _ => rfl
  | unordered hinner =>
    cases v with
    | object xs =>
      cases b with
      | object ys =>
        -- sorting moves the values of fields and adds none
        have hzip : ∀ q ∈ (Fields.sorted xs).values.zip (Fields.sorted ys).values,
            f q.1 _ _ q.2 = g q.1 _ _ q.2 := fun q hq => by
          obtain ⟨key, hkey⟩ := Fields.mem_of_mem_values_sorted (List.of_mem_zip hq).1
          exact congrFun (fields _ hkey _ _ hinner) q.2
        simp only [orderStep, Json.isNull, Bool.false_eq_true, if_false, Json.fields,
          Fields.length_mapValues, Fields.sorted_mapValues, Fields.keys_mapValues,
          Fields.values_mapValues, List.zip_map_left, firstUnequal_map, Prod.map, id, Shape.element,
          firstUnequal_congr hzip]
      | _ => rfl
    | _ => rfl

end Registry

end Classwright
