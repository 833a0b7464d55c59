import Classwright.Instance.Visit
import Classwright.Proofs.Instance.Copy
import Mathlib.Data.List.Perm.Basic

/-!
# Visits part by part

What the visit of a value is made of, for values whose parts can be visited. A list or a map has one
result for each element. An instance keeps its keys, and what is under each of them is visited by the
shape that the class declares for the key (`visitProperties_eq`); this is where no two properties may have
the same name in instances. Values of shapes without classes stay as they are.

Where no key occurs twice in an instance either, this says what all its fields are after a visit
(`visitValue_class_eq`). The loop goes by the properties of the class and not by the fields, so the visits
on the way come in another order.
-/

namespace Classwright

/-- A list of results, if there is one for each element. -/
theorem mapM_eq_ok {α β ε : Type} {f : α → Except ε β} {g : α → β} {l : List α}
    (h : ∀ x ∈ l, f x = .ok (g x)) : l.mapM f = .ok (l.map g) := by
  induction l with
  | nil => rfl
  | cons x l ih =>
    rw [List.mapM_cons, h x List.mem_cons_self, ih fun y hy => h y (List.mem_cons_of_mem _ hy)]
    rfl

namespace Registry

variable (r : Registry) (f : String → Json → Json)

/-- A value after a visit, where it can be visited. -/
def rewritten (v : Json) (shape : Shape) : Visited :=
  match r.visitValue f v shape with
  | .ok visited => visited
  | .error _ => ⟨v, []⟩

/-- Whether a value can be visited: all classes that it leads to exist. -/
def Rewrites (v : Json) (shape : Shape) : Prop := r.visitValue f v shape = .ok (r.rewritten f v shape)

variable {r f}

theorem rewritten_eq {v : Json} {shape : Shape} {visited : Visited}
    (h : r.visitValue f v shape = .ok visited) : r.rewritten f v shape = visited := by
  rw [rewritten, h]

theorem rewrites_of_eq {v : Json} {shape : Shape} {visited : Visited}
    (h : r.visitValue f v shape = .ok visited) : r.Rewrites f v shape := by
  rw [Rewrites, rewritten_eq h, h]

theorem visitValue_eq (v : Json) :
    r.visitValue f v = r.visitStep f v (v.items.map (r.visitValue f))
      (Fields.mapValues (r.visitValue f) v.fields) :=
  Json.walk_eq (r.visitStep f) v

theorem visitValue_null (shape : Shape) : r.visitValue f .null shape = .ok ⟨.null, []⟩ := by
  rw [visitValue_eq]
  cases shape <;> rfl

theorem visitValue_scalar (v : Json) (p : Primitive) :
    r.visitValue f v (.scalar p) = .ok ⟨v, []⟩ := by
  rw [visitValue_eq]
  cases v <;> rfl

theorem visitValue_list (items : List Json) (element : Shape) :
    r.visitValue f (.list items) (.array element) =
      (items.mapM fun v => r.visitValue f v element).bind fun parts =>
        .ok ⟨.list (parts.map Visited.value), parts.flatMap Visited.visits⟩ := by
  rw [visitValue_eq]
  simp only [visitStep, Json.items, List.mapM_map]
  rfl

/-- A list is visited item by item. -/
theorem visitValue_array {items : List Json} {element : Shape}
    (h : ∀ v ∈ items, r.Rewrites f v element) :
    r.visitValue f (.list items) (.array element) =
      .ok ⟨.list (items.map fun v => (r.rewritten f v element).value),
        items.flatMap fun v => (r.rewritten f v element).visits⟩ := by
  rw [visitValue_list, mapM_eq_ok h, Except.bind, List.map_map, List.flatMap_map]
  rfl

/-- The visit of an entry of a map. -/
def visitEntry (r : Registry) (f : String → Json → Json) (element : Shape) (e : String × Json) :
    Except InstanceFault (String × Visited) :=
  (r.visitValue f e.2 element).map fun part => (e.1, part)

theorem visitValue_object (fields : List (String × Json)) (element : Shape) :
    r.visitValue f (.object fields) (.map element) =
      (fields.mapM (r.visitEntry f element)).bind fun parts =>
        .ok ⟨.object (parts.map fun e => (e.1, e.2.value)), parts.flatMap fun e => e.2.visits⟩ := by
  rw [visitValue_eq]
  simp only [visitStep, Json.fields, Fields.mapValues, List.mapM_map]
  rfl

/-- A map is visited value by value. -/
theorem visitValue_map {fields : List (String × Json)} {element : Shape}
    (h : ∀ e ∈ fields, r.Rewrites f e.2 element) :
    r.visitValue f (.object fields) (.map element) =
      .ok ⟨.object (Fields.mapValues (fun v => (r.rewritten f v element).value) fields),
        fields.flatMap fun e => (r.rewritten f e.2 element).visits⟩ := by
  have hparts : fields.mapM (r.visitEntry f element) =
      .ok (fields.map fun e => (e.1, r.rewritten f e.2 element)) := by
    refine mapM_eq_ok fun e he => ?_
    rw [visitEntry, h e he]
    rfl
  rw [visitValue_object, hparts, Except.bind, List.map_map, List.flatMap_map]
  rfl

/-- Where there are no classes there is nothing to visit. -/
theorem visitValue_of_no_class {v : Json} {shape : Shape} (h : shape.containsClass = false) :
    r.visitValue f v shape = .ok ⟨v, []⟩ := by
  induction v using Json.ind_parts generalizing shape with
  | step v items fields _ =>
    cases shape with
    | scalar p => exact visitValue_scalar v p
    | ofClass name => cases h
    | array element =>
      cases v with
      | list xs =>
        have hitem (x) (hx : x ∈ xs) : r.visitValue f x element = .ok ⟨x, []⟩ := items x hx h
        rw [visitValue_array fun x hx => rewrites_of_eq (hitem x hx),
          List.map_congr_left fun x hx => congrArg Visited.value (rewritten_eq (hitem x hx)),
          List.flatMap_eq_nil_iff.2 fun x hx => congrArg Visited.visits (rewritten_eq (hitem x hx)),
          List.map_id']
      | _ =>
        rw [visitValue_eq]
        rfl
    | map element =>
      cases v with
      | object xs =>
        have hentry (e) (he : e ∈ xs) : r.visitValue f e.2 element = .ok ⟨e.2, []⟩ := fields e he h
        rw [visitValue_map fun e he => rewrites_of_eq (hentry e he), Fields.mapValues,
          List.map_congr_left fun e he =>
            congrArg (Prod.mk e.1 ·.value) (rewritten_eq (hentry e he)),
          List.flatMap_eq_nil_iff.2 fun e he => congrArg Visited.visits (rewritten_eq (hentry e he)),
          List.map_id']
      | _ =>
        rw [visitValue_eq]
        rfl

/-- Neither is there in what does not fit its shape. -/
theorem visitValue_of_not_opens {v : Json} {shape : Shape}
    (h : shape.comparison.opens v v = false) : r.visitValue f v shape = .ok ⟨v, []⟩ := by
  cases shape with
  | scalar p => exact visitValue_scalar v p
  | ofClass name =>
    cases v with
    | null => exact visitValue_null _
    | _ => cases h
  | array element =>
    rw [visitValue_eq]
    cases v with
    | list items => cases h
    | _ => rfl
  | map element =>
    rw [visitValue_eq]
    cases v with
    | object fields => cases h
    | _ => rfl

end Registry

/-! ## Field by field -/

namespace Fields

variable {α β γ : Type}

/-- Changes each value by its key, and keeps the keys. -/
def mapEntries (f : String → α → β) (fields : Fields α) : Fields β :=
  fields.map fun e => (e.1, f e.1 e.2)

@[simp] theorem keys_mapEntries (f : String → α → β) (fields : Fields α) :
    (mapEntries f fields).keys = fields.keys := by
  simp [mapEntries, keys]

theorem get?_mapEntries (f : String → α → β) (fields : Fields α) (key : String) :
    get? (mapEntries f fields) key = (get? fields key).map (f key) := by
  induction fields with
  | nil => rfl
  | cons field rest ih =>
    rw [mapEntries, List.map_cons, get?_cons, get?_cons]
    split
    · next h => rw [h, Option.map_some]
    · exact ih

theorem mapEntries_congr {f g : String → α → β} {fields : Fields α}
    (h : ∀ e ∈ fields, f e.1 e.2 = g e.1 e.2) : mapEntries f fields = mapEntries g fields :=
  List.map_congr_left fun e he => congrArg (Prod.mk e.1) (h e he)

theorem mapEntries_eq_self {f : String → α → α} {fields : Fields α}
    (h : ∀ e ∈ fields, f e.1 e.2 = e.2) : mapEntries f fields = fields := by
  have hid : mapEntries f fields = mapEntries (fun _ v => v) fields := mapEntries_congr h
  exact hid.trans (List.map_id' fields)

theorem mapValues_mapEntries (f : String → α → β) (g : β → γ) (fields : Fields α) :
    mapValues g (mapEntries f fields) = mapEntries (fun key v => g (f key v)) fields :=
  List.map_map

/-- Where no key occurs twice, fields are their keys and what is under these. -/
theorem ext_get? {xs ys : Fields α} (hd : xs.keys.Nodup) (hk : xs.keys = ys.keys)
    (h : ∀ key ∈ xs.keys, get? xs key = get? ys key) : xs = ys := by
  induction xs generalizing ys with
  | nil =>
    cases ys with
    | nil => rfl
    | cons y ys => cases hk
  | cons x xs ih =>
    cases ys with
    | nil => cases hk
    | cons y ys =>
      rw [keys_cons, keys_cons, List.cons.injEq] at hk
      rw [keys_cons, List.nodup_cons] at hd
      rw [keys_cons, List.forall_mem_cons, get?_cons, get?_cons, if_pos rfl, if_pos hk.1] at h
      rw [Prod.ext hk.1 (Option.some.inj h.1), ih hd.2 hk.2 fun key hkey => ?_]
      have hne : key ≠ x.1 := fun heq => hd.1 (heq ▸ hkey)
      have hget := h.2 key hkey
      rwa [get?_cons, get?_cons, if_neg hne, if_neg (hk.1 ▸ hne)] at hget

/-- What one field adds, if the others add nothing. -/
theorem flatMap_eq_of_get? {fields : Fields α} (hd : fields.keys.Nodup) {key : String} {v : α}
    (hget : get? fields key = some v) {g : String × α → List β}
    (hg : ∀ e ∈ fields, e.1 ≠ key → g e = []) : fields.flatMap g = g (key, v) := by
  induction fields with
  | nil => cases hget
  | cons field rest ih =>
    rw [keys_cons, List.nodup_cons] at hd
    rw [get?_cons] at hget
    rw [List.flatMap_cons]
    split at hget
    · next h =>
      cases hget
      have hrest : rest.flatMap g = [] := by
        refine List.flatMap_eq_nil_iff.2 fun e he => hg e (List.mem_cons_of_mem _ he) fun heq => hd.1 ?_
        rw [← h, ← heq]
        exact List.mem_map_of_mem he
      rw [hrest, List.append_nil, h]
    · next h =>
      rw [hg field List.mem_cons_self (Ne.symm h), List.nil_append]
      exact ih hd.2 hget fun e he => hg e (List.mem_cons_of_mem _ he)

end Fields

namespace Json

variable {g : String → Json → Json} {v : Json}

/-- Changes the fields of an object, each by its key. Other values have no fields. -/
def mapFields (g : String → Json → Json) : Json → Json
  | object fields => object (Fields.mapEntries g fields)
  | v => v

theorem isNull_mapFields : (v.mapFields g).isNull = v.isNull := by
  cases v <;> rfl

theorem mapFields_congr {g' : String → Json → Json} (h : ∀ e ∈ v.fields, g e.1 e.2 = g' e.1 e.2) :
    v.mapFields g = v.mapFields g' := by
  cases v with
  | object fields => exact congrArg object (Fields.mapEntries_congr h)
  | _ => rfl

theorem part_mapFields {key : String} (h : g key null = null) :
    (v.mapFields g).part key = g key (v.part key) := by
  cases v with
  | object fields =>
    rw [mapFields, part_eq, part_eq, Json.fields, Json.fields, Fields.get?_mapEntries]
    cases Fields.get? fields key with
    | none => exact h.symm
    | some w => rfl
  | _ => exact h.symm

theorem distinctKeys_mapFields (hv : v.distinctKeys = true)
    (h : ∀ e ∈ v.fields, (g e.1 e.2).distinctKeys = true) : (v.mapFields g).distinctKeys = true := by
  cases v with
  | object fields =>
    rw [mapFields, distinctKeys_object, Fields.keys_mapEntries]
    exact ⟨(distinctKeys_object.1 hv).1, List.forall_mem_map.2 h⟩
  | _ => exact hv

end Json

/-- The shape that some properties give to a key. A key of none of them is not typed. -/
def shapeIn (properties : List Property) (key : String) : Shape :=
  ((properties.find? (·.jsonName == key)).map Property.shape).getD .untyped

/-- The declared shape of what an instance has under a key. -/
def ClassModel.shapeOf (c : ClassModel) (key : String) : Shape := shapeIn c.properties key

theorem shapeIn_cons (p : Property) (l : List Property) (key : String) :
    shapeIn (p :: l) key = if key = p.jsonName then p.shape else shapeIn l key := by
  rw [shapeIn, List.find?_cons]
  by_cases h : key = p.jsonName
  · rw [if_pos h, h, beq_self_eq_true]
    rfl
  · rw [if_neg h, beq_false_of_ne (Ne.symm h)]
    rfl

theorem shapeIn_of_not_mem {l : List Property} {key : String}
    (h : key ∉ l.map Property.jsonName) : shapeIn l key = .untyped := by
  induction l with
  | nil => rfl
  | cons p l ih =>
    rw [List.map_cons, List.mem_cons, not_or] at h
    rw [shapeIn_cons, if_neg h.1, ih h.2]

theorem shapeIn_eq_of_mem {l : List Property} (hl : (l.map Property.jsonName).Nodup) {p : Property}
    (hp : p ∈ l) : shapeIn l p.jsonName = p.shape := by
  induction l with
  | nil => cases hp
  | cons q l ih =>
    rw [List.map_cons, List.nodup_cons] at hl
    rw [shapeIn_cons]
    rcases List.mem_cons.1 hp with rfl | hp
    · rw [if_pos rfl]
    · have hne : p.jsonName ≠ q.jsonName := fun heq => hl.1 (heq ▸ List.mem_map_of_mem hp)
      rw [if_neg hne, ih hl.2 hp]

/-! ## Instances -/

namespace Registry

variable {r : Registry} {f : String → Json → Json}

theorem rewritten_of_no_class {shape : Shape} (h : shape.containsClass = false) (v : Json) :
    r.rewritten f v shape = ⟨v, []⟩ :=
  rewritten_eq (visitValue_of_no_class h)

theorem rewritten_untyped (v : Json) : r.rewritten f v .untyped = ⟨v, []⟩ :=
  rewritten_of_no_class rfl v

/-- Only the properties that a visitor goes into count. -/
theorem rewritten_shapeIn_visitable {l : List Property} (hl : (l.map Property.jsonName).Nodup)
    (hv : ∀ p ∈ l, p.isVisitable = p.shape.containsClass) (key : String) (v : Json) :
    r.rewritten f v (shapeIn (l.filter Property.isVisitable) key) =
      r.rewritten f v (shapeIn l key) := by
  induction l with
  | nil => rfl
  | cons p l ih =>
    rw [List.map_cons, List.nodup_cons] at hl
    rw [List.forall_mem_cons] at hv
    rw [List.filter_cons, shapeIn_cons]
    cases hp : p.isVisitable with
    | true =>
      rw [if_pos rfl, shapeIn_cons]
      split
      · rfl
      · exact ih hl.2 hv.2
    | false =>
      rw [if_neg Bool.false_ne_true, ih hl.2 hv.2]
      split
      · next hkey =>
        -- no other property has the name of one that is passed over
        rw [hkey, shapeIn_of_not_mem hl.1, rewritten_untyped,
          rewritten_of_no_class (hv.1.symm.trans hp)]
      · rfl

/-- A property and then others with other names. -/
theorem rewritten_shapeIn_cons {p : Property} {l : List Property}
    (hp : p.jsonName ∉ l.map Property.jsonName) (key : String) (v : Json) :
    (r.rewritten f (r.rewritten f v (shapeIn [p] key)).value (shapeIn l key)).value =
        (r.rewritten f v (shapeIn (p :: l) key)).value ∧
      (r.rewritten f v (shapeIn [p] key)).visits ++ (r.rewritten f v (shapeIn l key)).visits =
        (r.rewritten f v (shapeIn (p :: l) key)).visits := by
  rw [shapeIn_cons p l, shapeIn_cons p []]
  split
  · next hkey =>
    rw [hkey, shapeIn_of_not_mem hp, rewritten_untyped, rewritten_untyped]
    exact ⟨rfl, List.append_nil _⟩
  · rw [show shapeIn [] key = .untyped from rfl, rewritten_untyped]
    exact ⟨rfl, rfl⟩

/-- The visit of one property of an instance with the given fields. -/
def visitPart (r : Registry) (f : String → Json → Json) (given : Fields Json)
    (acc : Fields Json × List String) (p : Property) :
    Except InstanceFault (Fields Json × List String) :=
  match Fields.get? (Fields.mapValues (r.visitValue f) given) p.jsonName with
  | some visit => do
    let part ← visit p.shape
    return (acc.1.insert p.jsonName part.value, acc.2 ++ part.visits)
  | none => return acc

theorem visitProperties_eq_foldlM (c : ClassModel) (given : Fields Json) :
    visitProperties c given (Fields.mapValues (r.visitValue f) given) =
      c.visitable.foldlM (visitPart r f given) (given, []) := rfl

/-- The visits on the way when a property of an instance is visited. -/
def visitsOf (r : Registry) (f : String → Json → Json) (given : Fields Json) (p : Property) :
    List String :=
  (r.rewritten f ((Json.object given).part p.jsonName) p.shape).visits

/-- **One property.** The visit changes the field of the property and nothing else. -/
theorem visitPart_eq {given done : Fields Json} {p : Property} (visits : List String)
    (hdone : done.get? p.jsonName = given.get? p.jsonName)
    (h : r.Rewrites f ((Json.object given).part p.jsonName) p.shape) :
    ∃ fields, visitPart r f given (done, visits) p = .ok (fields, visits ++ r.visitsOf f given p) ∧
      Fields.keys fields = done.keys ∧
      ∀ key, Fields.get? fields key =
        (done.get? key).map fun v => (r.rewritten f v (shapeIn [p] key)).value := by
  have hother (key : String) (hne : key ≠ p.jsonName) :
      (done.get? key).map (fun v => (r.rewritten f v (shapeIn [p] key)).value) = done.get? key := by
    simp only [shapeIn_of_not_mem (l := [p]) (by simpa using hne), rewritten_untyped, Option.map_id']
  unfold visitPart visitsOf
  rw [Json.part_eq, Json.fields] at h ⊢
  rw [Fields.get?_mapValues]
  cases hget : given.get? p.jsonName with
  | none =>
    refine ⟨done, ?_, rfl, fun key => ?_⟩
    · rw [Option.getD_none, rewritten_eq (visitValue_null _), List.append_nil]
      rfl
    · by_cases hkey : key = p.jsonName
      · rw [hkey, hdone, hget]
        rfl
      · exact (hother key hkey).symm
  | some v =>
    rw [hget, Option.getD_some] at h
    refine ⟨done.insert p.jsonName (r.rewritten f v p.shape).value, ?_, ?_, fun key => ?_⟩
    · rw [Option.map_some]
      dsimp only
      rw [h]
      rfl
    · rw [Fields.keys_insert, if_pos (Fields.mem_keys_of_get? (hdone.trans hget))]
    · rw [Fields.get?_insert]
      split
      · next hkey =>
        rw [hkey, hdone, hget, shapeIn_cons, if_pos rfl]
        rfl
      · next hkey => exact (hother key hkey).symm

/-- The properties one after another. -/
theorem foldlM_visitPart_eq {given : Fields Json} {l : List Property}
    (hl : (l.map Property.jsonName).Nodup)
    (h : ∀ p ∈ l, r.Rewrites f ((Json.object given).part p.jsonName) p.shape)
    {done : Fields Json} (hdone : ∀ p ∈ l, done.get? p.jsonName = given.get? p.jsonName)
    (visits : List String) :
    ∃ fields, l.foldlM (visitPart r f given) (done, visits) =
        .ok (fields, visits ++ l.flatMap (r.visitsOf f given)) ∧
      Fields.keys fields = done.keys ∧
      ∀ key, Fields.get? fields key =
        (done.get? key).map fun v => (r.rewritten f v (shapeIn l key)).value := by
  induction l generalizing done visits with
  | nil =>
    refine ⟨done, by rw [List.flatMap_nil, List.append_nil]; rfl, rfl, fun key => ?_⟩
    simp only [show shapeIn [] key = .untyped from rfl, rewritten_untyped, Option.map_id']
  | cons p l ih =>
    rw [List.map_cons, List.nodup_cons] at hl
    rw [List.forall_mem_cons] at h hdone
    obtain ⟨fields, hstep, hkeys, hfields⟩ := visitPart_eq visits hdone.1 h.1
    -- the properties to come have other names, so their fields are as they were
    have hrest (q) (hq : q ∈ l) : fields.get? q.jsonName = given.get? q.jsonName := by
      have hne : q.jsonName ∉ [p].map Property.jsonName := fun hmem =>
        hl.1 (List.mem_singleton.1 hmem ▸ List.mem_map_of_mem hq)
      simp only [hfields, shapeIn_of_not_mem hne, rewritten_untyped, Option.map_id', hdone.2 q hq]
    obtain ⟨fields', hfold, hkeys', hfields'⟩ := ih hl.2 h.2 hrest (visits ++ r.visitsOf f given p)
    refine ⟨fields', ?_, hkeys'.trans hkeys, fun key => ?_⟩
    · rw [List.foldlM_cons, hstep, List.flatMap_cons, ← List.append_assoc]
      exact hfold
    · rw [hfields', hfields, Option.map_map]
      exact congrArg (Option.map · _) (funext fun v => (rewritten_shapeIn_cons hl.1 key v).1)

/-- Where no key occurs twice, the visits of properties are those of the fields, by the shapes of their
keys. They come in another order. -/
theorem flatMap_visitsOf_perm {given : Fields Json} (hd : given.keys.Nodup) {l : List Property}
    (hl : (l.map Property.jsonName).Nodup) :
    (l.flatMap (r.visitsOf f given)).Perm
      (given.flatMap fun e => (r.rewritten f e.2 (shapeIn l e.1)).visits) := by
  induction l with
  | nil =>
    have hnone (e : String × Json) : (r.rewritten f e.2 (shapeIn [] e.1)).visits = [] :=
      congrArg Visited.visits (rewritten_untyped e.2)
    rw [List.flatMap_eq_nil_iff.2 fun e _ => hnone e]
    exact .refl _
  | cons p l ih =>
    rw [List.map_cons, List.nodup_cons] at hl
    -- the fields under other keys have no visits for this property
    have hother (e) (_ : e ∈ given) (hne : e.1 ≠ p.jsonName) :
        (r.rewritten f e.2 (shapeIn [p] e.1)).visits = [] := by
      rw [shapeIn_of_not_mem (by simpa using hne), rewritten_untyped]
    have hself : (given.flatMap fun e => (r.rewritten f e.2 (shapeIn [p] e.1)).visits) =
        r.visitsOf f given p := by
      rw [visitsOf, Json.part_eq, Json.fields]
      cases hget : given.get? p.jsonName with
      | none =>
        rw [Option.getD_none, rewritten_eq (visitValue_null _)]
        refine List.flatMap_eq_nil_iff.2 fun e he => hother e he fun heq => ?_
        cases (Fields.get?_of_mem hd he).symm.trans (heq ▸ hget)
      | some v =>
        rw [Fields.flatMap_eq_of_get? hd hget hother, shapeIn_cons, if_pos rfl]
        rfl
    rw [List.flatMap_cons, ← hself]
    refine ((ih hl.2).append_left _).trans ((List.flatMap_append_perm _ _ _).trans ?_)
    simp only [(rewritten_shapeIn_cons hl.1 _ _).2, List.Perm.refl]

/-- **The properties of an instance.** It keeps its keys, and what is under each of them is visited by the
declared shape. Where no key occurs twice, every visit on the way is that of one field. -/
theorem visitProperties_eq {c : ClassModel} (hd : c.DistinctKeys)
    (hv : ∀ p ∈ c.properties, p.isVisitable = p.shape.containsClass) {given : Fields Json}
    (h : ∀ p ∈ c.properties, r.Rewrites f ((Json.object given).part p.jsonName) p.shape) :
    ∃ fields visits,
      visitProperties c given (Fields.mapValues (r.visitValue f) given) = .ok (fields, visits) ∧
      Fields.keys fields = given.keys ∧
      (∀ key, Fields.get? fields key =
        (given.get? key).map fun v => (r.rewritten f v (c.shapeOf key)).value) ∧
      (given.keys.Nodup →
        visits.Perm (given.flatMap fun e => (r.rewritten f e.2 (c.shapeOf e.1)).visits)) := by
  have hvisitable : c.visitable.Sublist c.properties := List.filter_sublist
  have hl := hd.sublist (hvisitable.map Property.jsonName)
  have hshape := rewritten_shapeIn_visitable (r := r) (f := f) hd hv
  obtain ⟨fields, hfold, hkeys, hfields⟩ := foldlM_visitPart_eq hl
    (fun p hp => h p (hvisitable.subset hp)) (fun _ _ => rfl) []
  refine ⟨fields, _, (visitProperties_eq_foldlM c given).trans hfold, hkeys, fun key => ?_,
    fun hnodup => ?_⟩
  · rw [hfields]
    simp only [ClassModel.visitable, hshape, ClassModel.shapeOf]
  · have hperm := flatMap_visitsOf_perm (r := r) (f := f) hnodup hl
    simp only [ClassModel.visitable, hshape] at hperm
    exact hperm

/-- What is under the name of a property is as its visit says, whether it was there or not. -/
theorem part_eq_of_get? {c : ClassModel} (hd : c.DistinctKeys) {given fields : Fields Json}
    (h : ∀ key, Fields.get? fields key =
      (given.get? key).map fun v => (r.rewritten f v (c.shapeOf key)).value)
    {p : Property} (hp : p ∈ c.properties) :
    (Json.object fields).part p.jsonName =
      (r.rewritten f ((Json.object given).part p.jsonName) p.shape).value := by
  rw [Json.part_eq, Json.part_eq, Json.fields, Json.fields, h, ClassModel.shapeOf,
    shapeIn_eq_of_mem hd hp]
  cases given.get? p.jsonName with
  | none => rw [Option.getD_none, rewritten_eq (visitValue_null _)]; rfl
  | some v => rfl

theorem visitValue_of_unknown {v : Json} (hv : v.isNull = false) {name : String}
    {fault : InstanceFault} (hc : r.find name = .error fault) :
    r.visitValue f v (.ofClass name) = .error fault := by
  rw [visitValue_eq]
  cases v with
  | null => cases hv
  | _ => simp only [visitStep, hc]; rfl

/-- An instance is replaced after its properties are visited. -/
theorem visitValue_ofClass {name : String} {c : ClassModel} (hc : r.find name = .ok c)
    (given : Fields Json) :
    r.visitValue f (.object given) (.ofClass name) =
      (visitProperties c given (Fields.mapValues (r.visitValue f) given)).bind fun done =>
        .ok ⟨f c.name (.object done.1), done.2 ++ [c.name]⟩ := by
  rw [visitValue_eq]
  simp only [visitStep, hc]
  rfl

theorem visitValue_class (hr : r.Keyed) {name : String} {c : ClassModel} (hc : r.get? name = some c)
    {given fields : Fields Json} {visits : List String}
    (h : visitProperties c given (Fields.mapValues (r.visitValue f) given) = .ok (fields, visits)) :
    r.visitValue f (.object given) (.ofClass name) =
      .ok ⟨f name (.object fields), visits ++ [name]⟩ := by
  rw [visitValue_ofClass (find_of_get? hc), h, hr.name_of_get? hc]
  rfl

/-- **The visit of an instance.** Its fields are visited by their declared shapes, and then it is
replaced. What is no object has no fields. -/
theorem visitValue_class_eq (hr : r.Keyed) {name : String} {c : ClassModel} (hc : r.get? name = some c)
    (hd : c.DistinctKeys) (hv : ∀ p ∈ c.properties, p.isVisitable = p.shape.containsClass) {v : Json}
    (hnull : v.isNull = false) (hkeys : v.fields.keys.Nodup)
    (h : ∀ p ∈ c.properties, ∀ x, r.Rewrites f x p.shape) :
    ∃ visits, r.visitValue f v (.ofClass name) =
        .ok ⟨f name (v.mapFields fun key x => (r.rewritten f x (c.shapeOf key)).value),
          visits ++ [name]⟩ ∧
      visits.Perm (v.fields.flatMap fun e => (r.rewritten f e.2 (c.shapeOf e.1)).visits) := by
  cases v with
  | null => cases hnull
  | object given =>
    obtain ⟨fields, visits, hvisit, hkeys', hfields, hperm⟩ :=
      visitProperties_eq hd hv fun p hp => h p hp ((Json.object given).part p.jsonName)
    have heq : fields = Fields.mapEntries (fun key x => (r.rewritten f x (c.shapeOf key)).value) given := by
      refine Fields.ext_get? (hkeys' ▸ hkeys) (by rw [hkeys', Fields.keys_mapEntries]) fun key _ => ?_
      rw [hfields, Fields.get?_mapEntries]
    rw [heq] at hvisit
    exact ⟨visits, visitValue_class hr hc hvisit, hperm hkeys⟩
  | _ =>
    obtain rfl := hr.name_of_get? hc
    refine ⟨[], ?_, .refl _⟩
    rw [visitValue_eq]
    simp only [visitStep, find_of_get? hc]
    rfl

end Registry

end Classwright
