import Mathlib.Data.List.Nodup
import Classwright.Instance.Copy
import Classwright.Proofs.Instance.Order
import Classwright.Proofs.Model.Build

/-!
# Copies decide equality

Two instances are equal exactly if `Json.order` finds no difference between their copies. Equality
goes by the schema and the order of values knows none. A copy forgets what equality does not look
at: keys of no property, properties that are `null`, and the order of the keys of an instance.

## The architecture

* **`Registry.copyOf`**, **`Registry.Copies`** — the copy of a value, and that there is one. For each
  shape one equation says when copying succeeds and what the copy is made of (`copyValue_class`,
  `copyValue_array`, `copyValue_map`, `copyValue_of_not_opens`).
* **`ClassModel.shown`** — the fields of a copied instance: the properties that are not `null`, in the
  order of the class. This is where no two properties may have the same name in instances.
* **`order_shown`** — such objects have no difference exactly if no property has one.
* **`equalValues_eq_order_copyOf`** — the induction over a value. Where the comparison looks into two
  values, equality and the order of the copies both come down to the parts (`Forall₂`,
  `Fields.Match`); everywhere else the copies are the values themselves or differ in rank.
-/

namespace Classwright

/-! ## Lists of results -/

section

variable {α β γ ε : Type}

/-- A result made of a list of results is there if each of them is. `value` names them in advance. -/
theorem mapM_bind_eq_ok_iff {f : α → Except ε β} {value : α → β}
    (hvalue : ∀ x y, f x = .ok y → value x = y) (xs : List α) (wrap : List β → γ) {z : γ} :
    ((xs.mapM f).bind fun ys => .ok (wrap ys)) = .ok z ↔
      (∀ x ∈ xs, f x = .ok (value x)) ∧ z = wrap (xs.map value) := by
  induction xs generalizing wrap with
  | nil =>
    exact ⟨fun h => ⟨nofun, (Except.ok.inj h).symm⟩, fun h => congrArg Except.ok h.2.symm⟩
  | cons x xs ih =>
    rw [List.forall_mem_cons, List.map_cons]
    cases hx : f x with
    | error e =>
      rw [List.mapM_cons, hx]
      exact ⟨nofun, fun h => nomatch h.1.1⟩
    | ok y =>
      -- the first result is there, so it is part of what the rest is wrapped in
      have htail : (((x :: xs).mapM f).bind fun ys => Except.ok (wrap ys)) =
          (xs.mapM f).bind fun ys => .ok (wrap (y :: ys)) := by
        rw [List.mapM_cons, hx]
        cases xs.mapM f <;> rfl
      rw [htail, ih fun ys => wrap (y :: ys), hvalue x y hx]
      simp

/-- Tests that do not fail one by one do not fail together. -/
theorem exists_allM_eq_ok {p : α → Except ε Bool} {l : List α} (h : ∀ x ∈ l, ∃ b, p x = .ok b) :
    ∃ b, l.allM p = .ok b := by
  induction l with
  | nil => exact ⟨true, rfl⟩
  | cons x l ih =>
    obtain ⟨b, hb⟩ := h x List.mem_cons_self
    rw [allM_cons_ok hb]
    cases b with
    | false => exact ⟨false, rfl⟩
    | true => exact ih fun y hy => h y (List.mem_cons_of_mem _ hy)

end

/-! ## Values without a difference, part by part -/

namespace Json

theorem firstDifference_eq_iff {xs ys : List Json} :
    firstDifference (xs.map order) ys = .eq ↔ ∀ q ∈ xs.zip ys, order q.1 q.2 = .eq := by
  induction xs generalizing ys with
  | nil => simp [firstDifference]
  | cons x xs ih =>
    cases ys with
    | nil => simp [firstDifference]
    | cons y ys =>
      rw [List.map_cons, firstDifference, Ordering.then_eq_eq, ih, List.zip_cons_cons,
        List.forall_mem_cons]

theorem order_list_eq_iff {xs ys : List Json} :
    order (list xs) (list ys) = .eq ↔ List.Forall₂ (fun x y => order x y = .eq) xs ys := by
  rw [order_list, Ordering.then_eq_eq, Nat.compare_eq_eq, firstDifference_eq_iff,
    List.forall₂_iff_zip]
  exact and_congr_right fun _ => ⟨fun h _ _ hq => h _ hq, fun h q hq => h hq⟩

theorem order_object_eq_iff {xs ys : List (String × Json)} :
    order (object xs) (object ys) = .eq ↔ Fields.Match (fun x y => order x y = .eq) xs ys := by
  have hkeys : orderKeys (Fields.sorted xs).keys (Fields.sorted ys).keys = .eq ↔
      (Fields.sorted xs).keys = (Fields.sorted ys).keys := Std.LawfulEqCmp.compare_eq_iff_eq
  rw [order_object, Ordering.then_eq_eq, Ordering.then_eq_eq, Nat.compare_eq_eq, hkeys,
    firstDifference_eq_iff, Fields.match_iff_zip]
  exact ⟨fun h => h.2, fun h => ⟨Fields.length_eq_of_keys_sorted h.1, h⟩⟩

end Json

namespace Fields

variable {α β γ δ : Type}

/-- Changing the values on both sides changes what is asked of them. -/
theorem match_mapValues {P : γ → δ → Prop} {f : α → γ} {g : β → δ} {xs : Fields α}
    {ys : Fields β} :
    Match P (mapValues f xs) (mapValues g ys) ↔ Match (fun x y => P (f x) (g y)) xs ys := by
  unfold Match
  rw [sorted_mapValues, sorted_mapValues, mapValues, mapValues, List.forall₂_map_left_iff,
    List.forall₂_map_right_iff]

end Fields

/-! ## Fields of copied instances -/

namespace ClassModel

/-- The fields of an instance with the given properties. What is `null` is left out. -/
def shown (c : ClassModel) (part : Property → Json) : Fields Json :=
  (c.properties.filter fun p => !(part p).isNull).map fun p => (p.jsonName, part p)

variable {c : ClassModel} {part part' : Property → Json}

/-- What is shown depends on the properties only. -/
theorem shown_congr (h : ∀ p ∈ c.properties, part p = part' p) : c.shown part = c.shown part' := by
  unfold shown
  rw [List.filter_congr fun p hp => by rw [h p hp]]
  exact List.map_congr_left fun p hp => by rw [h p (List.mem_of_mem_filter hp)]

theorem keys_shown (c : ClassModel) (part : Property → Json) :
    (c.shown part).keys =
      (c.properties.filter fun p => !(part p).isNull).map Property.jsonName := by
  rw [shown, Fields.keys, List.map_map]
  rfl

theorem nodup_keys_shown (hc : c.DistinctKeys) (part : Property → Json) :
    (c.shown part).keys.Nodup := by
  rw [keys_shown]
  exact hc.sublist ((List.filter_sublist).map _)

/-- What the object has under the name of a property. -/
theorem part_shown (hc : c.DistinctKeys) {p : Property} (hp : p ∈ c.properties) :
    (Json.object (c.shown part)).part p.jsonName = part p := by
  rw [show (Json.object (c.shown part)).part p.jsonName =
    (Fields.get? (c.shown part) p.jsonName).getD .null from rfl]
  cases hnull : (part p).isNull with
  | false =>
    have hmem : (p.jsonName, part p) ∈ c.shown part :=
      List.mem_map.2 ⟨p, List.mem_filter.2 ⟨hp, by simp [hnull]⟩, rfl⟩
    rw [Fields.get?_of_mem (nodup_keys_shown hc part) hmem]
    rfl
  | true =>
    rw [Json.eq_null_of_isNull hnull]
    cases hget : Fields.get? (c.shown part) p.jsonName with
    | none => rfl
    | some v =>
      -- a field of this name would come from this property, which shows nothing
      obtain ⟨q, hq, heq⟩ := List.mem_map.1 (Fields.mem_of_get? hget)
      rw [List.mem_filter] at hq
      have hqp : q = p := List.inj_on_of_nodup_map hc hq.1 hp (congrArg Prod.fst heq)
      rw [hqp, hnull] at hq
      cases hq.2

theorem get?_shown (hc : c.DistinctKeys) {p : Property} (hp : p ∈ c.properties)
    (hnull : (part p).isNull = false) : (c.shown part).get? p.jsonName = some (part p) :=
  Fields.get?_of_mem (nodup_keys_shown hc part)
    (List.mem_map.2 ⟨p, List.mem_filter.2 ⟨hp, by simp [hnull]⟩, rfl⟩)

theorem order_part_of_order_shown (hc : c.DistinctKeys)
    (h : (Json.object (c.shown part)).order (.object (c.shown part')) = .eq) {p : Property}
    (hp : p ∈ c.properties) (hnull : (part p).isNull = false) : (part p).order (part' p) = .eq := by
  rw [Json.order_object_eq_iff, Fields.match_iff (nodup_keys_shown hc part)] at h
  obtain ⟨v, hv, horder⟩ := h.2 _ (Fields.mem_of_get? (get?_shown hc hp hnull))
  have hpart : v = part' p := by
    have hshown : (Json.object (c.shown part')).part p.jsonName = part' p := part_shown hc hp
    rw [← hshown, Json.part, Json.field?, hv]
    rfl
  exact hpart ▸ horder

/-- **Shown instances differ where a property does.** -/
theorem order_shown (hc : c.DistinctKeys) :
    (Json.object (c.shown part)).order (.object (c.shown part')) = .eq ↔
      ∀ p ∈ c.properties, (part p).order (part' p) = .eq := by
  constructor
  · intro h p hp
    cases hnull : (part p).isNull with
    | false => exact order_part_of_order_shown hc h hp hnull
    | true =>
      cases hnull' : (part' p).isNull with
      | true =>
        rw [Json.eq_null_of_isNull hnull, Json.eq_null_of_isNull hnull']
        rfl
      | false =>
        -- the second object shows the property, so the other way round it decides
        have hswap : (Json.object (c.shown part')).order (.object (c.shown part)) = .eq := by
          rw [Json.order_swap, h]
          rfl
        rw [Json.order_swap, order_part_of_order_shown hc hswap hp hnull']
        rfl
  · intro h
    have hnull (p) (hp : p ∈ c.properties) : (part p).isNull = (part' p).isNull :=
      Json.isNull_eq_of_kindRank (Json.kindRank_eq_of_order (h p hp))
    have hfilter : (c.properties.filter fun p => !(part p).isNull) =
        c.properties.filter fun p => !(part' p).isNull :=
      List.filter_congr fun p hp => by rw [hnull p hp]
    rw [Json.order_object_eq_iff, Fields.match_iff (nodup_keys_shown hc part)]
    refine ⟨?_, fun f hf => ?_⟩
    · rw [shown, shown, List.length_map, List.length_map, hfilter]
    · obtain ⟨p, hp, rfl⟩ := List.mem_map.1 hf
      have hp' := List.mem_filter.1 (hfilter ▸ hp)
      exact ⟨part' p, get?_shown hc hp'.1 (by simpa using hp'.2), h p hp'.1⟩

end ClassModel

/-! ## What is copied -/

namespace Registry

variable (r : Registry)

/-- The copy of a value, where it can be copied. -/
def copyOf (v : Json) (shape : Shape) : Json :=
  match r.copyValue v shape with
  | .ok copy => copy
  | .error _ => .null

/-- Whether a value can be copied: all classes that it leads to exist. -/
def Copies (v : Json) (shape : Shape) : Prop := r.copyValue v shape = .ok (r.copyOf v shape)

variable {r}

theorem copyOf_eq {v copy : Json} {shape : Shape} (h : r.copyValue v shape = .ok copy) :
    r.copyOf v shape = copy := by
  rw [copyOf, h]

theorem copies_of_eq {v copy : Json} {shape : Shape} (h : r.copyValue v shape = .ok copy) :
    r.Copies v shape := by
  rw [Copies, copyOf_eq h, h]

variable (r)

theorem copyValue_eq (v : Json) :
    r.copyValue v = r.copyStep v (v.items.map r.copyValue)
      (Fields.mapValues r.copyValue v.fields) :=
  Json.walk_eq r.copyStep v

theorem copyValue_null (shape : Shape) : r.copyValue .null shape = .ok .null := by
  rw [copyValue_eq]
  cases shape <;> rfl

/-- What no comparison looks into is copied as it stands. -/
theorem copyValue_of_not_opens {v : Json} {shape : Shape}
    (h : shape.comparison.opens v v = false) : r.copyValue v shape = .ok v := by
  rw [copyValue_eq]
  cases shape with
  | scalar p => cases v <;> rfl
  | ofClass name =>
    cases v with
    | null => rfl
    | _ => cases h
  | array element =>
    cases v with
    | list items => cases h
    | _ => rfl
  | map element =>
    cases v with
    | object fields => cases h
    | _ => rfl

theorem copyValue_list (items : List Json) (element : Shape) :
    r.copyValue (.list items) (.array element) =
      (items.mapM fun v => r.copyValue v element).bind fun copies => .ok (.list copies) := by
  rw [copyValue_eq]
  simp only [copyStep, Json.items, List.mapM_map]
  rfl

/-- A list is copied item by item. -/
theorem copyValue_array {items : List Json} {element : Shape} {copy : Json} :
    r.copyValue (.list items) (.array element) = .ok copy ↔
      (∀ v ∈ items, r.Copies v element) ∧
        copy = .list (items.map fun v => r.copyOf v element) := by
  rw [copyValue_list]
  exact mapM_bind_eq_ok_iff (fun _ _ h => copyOf_eq h) items Json.list

/-- The copy of an entry of a map. -/
def copyEntry (element : Shape) (f : String × Json) : Except InstanceFault (String × Json) :=
  (r.copyValue f.2 element).map fun copy => (f.1, copy)

theorem copyValue_object (fields : List (String × Json)) (element : Shape) :
    r.copyValue (.object fields) (.map element) =
      (fields.mapM (r.copyEntry element)).bind fun copies => .ok (.object copies) := by
  rw [copyValue_eq]
  simp only [copyStep, Json.fields, Fields.mapValues, List.mapM_map]
  rfl

/-- A map is copied value by value. -/
theorem copyValue_map {fields : List (String × Json)} {element : Shape} {copy : Json} :
    r.copyValue (.object fields) (.map element) = .ok copy ↔
      (∀ f ∈ fields, r.Copies f.2 element) ∧
        copy = .object (Fields.mapValues (fun v => r.copyOf v element) fields) := by
  have hentry (f : String × Json) :
      r.copyEntry element f = .ok (f.1, r.copyOf f.2 element) ↔ r.Copies f.2 element := by
    rw [copyEntry, Copies]
    cases r.copyValue f.2 element <;> simp [Except.map]
  have hvalue (f : String × Json) (y : String × Json) (h : r.copyEntry element f = .ok y) :
      (f.1, r.copyOf f.2 element) = y := by
    rw [copyEntry] at h
    cases hf : r.copyValue f.2 element with
    | error e => simp [hf, Except.map] at h
    | ok copy =>
      rw [copyOf_eq hf]
      simpa [hf, Except.map] using h
  rw [copyValue_object, mapM_bind_eq_ok_iff hvalue fields Json.object]
  simp only [hentry]
  rfl

end Registry

/-- Adds the copy of a property to the fields of a copy, unless it is `null`. -/
def addCopy (copier : Property → Except InstanceFault Json) (done : Fields Json) (p : Property) :
    Except InstanceFault (Fields Json) :=
  (copier p).map fun copy => if copy.isNull then done else done.insert p.jsonName copy

/-- The loop over the properties of a class: there is a copy if there is one of each property. -/
theorem foldlM_addCopy_eq_ok_iff {copier : Property → Except InstanceFault Json}
    {value : Property → Json} (hvalue : ∀ p copy, copier p = .ok copy → value p = copy)
    {l : List Property} (hl : (l.map Property.jsonName).Nodup) {done : Fields Json}
    (hdone : ∀ p ∈ l, p.jsonName ∉ done.keys) {copy : Json} :
    (l.foldlM (addCopy copier) done).map Json.object = .ok copy ↔
      (∀ p ∈ l, copier p = .ok (value p)) ∧
        copy = .object (done ++
          (l.filter fun p => !(value p).isNull).map fun p => (p.jsonName, value p)) := by
  induction l generalizing done with
  | nil =>
    rw [List.foldlM_nil, List.filter_nil, List.map_nil, List.append_nil]
    exact ⟨fun h => ⟨nofun, (Except.ok.inj h).symm⟩, fun h => congrArg Except.ok h.2.symm⟩
  | cons p l ih =>
    rw [List.map_cons, List.nodup_cons] at hl
    rw [List.foldlM_cons, List.forall_mem_cons]
    cases hp : copier p with
    | error e =>
      rw [addCopy, hp]
      exact ⟨nofun, fun h => nomatch h.1.1⟩
    | ok copied =>
      have hcopied : value p = copied := hvalue p copied hp
      have hfresh : p.jsonName ∉ done.keys := hdone p List.mem_cons_self
      have hadd : addCopy copier done p =
          .ok (done ++ if copied.isNull then [] else [(p.jsonName, copied)]) := by
        rw [addCopy, hp]
        cases hnull : copied.isNull <;>
          simp [Except.map, hnull, Fields.insert_of_not_mem hfresh]
      rw [hadd]
      refine (ih hl.2 fun q hq hmem => ?_).trans ?_
      · -- the name of a later property is neither this one nor one that is done
        have hne : q.jsonName ≠ p.jsonName := fun he => hl.1 (he ▸ List.mem_map.2 ⟨q, hq, rfl⟩)
        rw [Fields.keys, List.map_append, List.mem_append] at hmem
        rcases hmem with hmem | hmem
        · exact hdone q (List.mem_cons_of_mem _ hq) hmem
        · split at hmem
          · cases hmem
          · exact hne (List.mem_singleton.1 hmem)
      · cases hnull : copied.isNull <;> simp [hcopied, hnull]

namespace Registry

variable (r : Registry)

/-- An instance is copied property by property. What is not there is copied like a `null`. -/
theorem copyValue_ofClass {v : Json} (hv : v.isNull = false) {name : String} {c : ClassModel}
    (hc : r.find name = .ok c) :
    r.copyValue v (.ofClass name) = (c.properties.foldlM
      (addCopy fun p => r.copyValue (v.part p.jsonName) p.shape) []).map Json.object := by
  have hloop : copyProperties c (Fields.mapValues r.copyValue v.fields) = (c.properties.foldlM
      (addCopy fun p => r.copyValue (v.part p.jsonName) p.shape) []).map Json.object := by
    unfold copyProperties
    refine congrArg (fun step => Except.map Json.object (c.properties.foldlM step []))
      (funext fun done => funext fun p => ?_)
    dsimp only [addCopy]
    rw [Fields.get?_mapValues, Json.part_eq]
    cases Fields.get? v.fields p.jsonName with
    | none =>
      rw [show (none : Option Json).getD .null = .null from rfl, copyValue_null]
      rfl
    | some w => rfl
  rw [← hloop, copyValue_eq]
  cases v with
  | null => cases hv
  | _ => simp only [copyStep, hc]; rfl

theorem copyValue_class {v : Json} (hv : v.isNull = false) {name : String} {c : ClassModel}
    (hc : r.find name = .ok c) (hd : c.DistinctKeys) {copy : Json} :
    r.copyValue v (.ofClass name) = .ok copy ↔
      (∀ p ∈ c.properties, r.Copies (v.part p.jsonName) p.shape) ∧
        copy = .object (c.shown fun p => r.copyOf (v.part p.jsonName) p.shape) := by
  rw [copyValue_ofClass r hv hc]
  exact foldlM_addCopy_eq_ok_iff (fun _ _ h => copyOf_eq h) hd fun _ _ => List.not_mem_nil

theorem copyValue_of_unknown {v : Json} (hv : v.isNull = false) {name : String}
    {fault : InstanceFault} (hc : r.find name = .error fault) :
    r.copyValue v (.ofClass name) = .error fault := by
  rw [copyValue_eq]
  cases v with
  | null => cases hv
  | _ => simp only [copyStep, hc]; rfl

/-- What is copied as an instance is of a class. -/
theorem find_of_copies {v : Json} (hv : v.isNull = false) {name : String}
    (h : r.Copies v (.ofClass name)) : ∃ c, r.find name = .ok c := by
  cases hc : r.find name with
  | ok c => exact ⟨c, rfl⟩
  | error fault => cases (r.copyValue_of_unknown hv hc).symm.trans h

/-! ## Copies and equality -/

/-- A copy is looked into where its value is. -/
theorem rank_copyOf (hd : ∀ c ∈ r.classes, c.DistinctKeys) {v : Json} {shape : Shape}
    (h : r.Copies v shape) :
    shape.comparison.rank (r.copyOf v shape) = shape.comparison.rank v := by
  cases ho : shape.comparison.opens v v with
  | false => rw [copyOf_eq (r.copyValue_of_not_opens ho)]
  | true =>
    cases shape with
    | scalar p => cases ho
    | ofClass name =>
      obtain ⟨hv, -⟩ := Comparison.not_null_of_opens ho
      obtain ⟨c, hc⟩ := r.find_of_copies hv h
      rw [((r.copyValue_class hv hc (hd c (mem_of_find hc))).1 h).2]
      rw [Shape.comparison, Comparison.rank, Comparison.rank, hv]
      rfl
    | array element =>
      obtain ⟨items, -, rfl, -⟩ := Comparison.lists_of_opens ho
      rw [(r.copyValue_array.1 h).2]
      rfl
    | map element =>
      obtain ⟨fields, -, rfl, -⟩ := Comparison.objects_of_opens ho
      rw [(r.copyValue_map.1 h).2]
      rfl

/-- A test that succeeds is decided by what it means for it to pass. -/
theorem eq_ok_beq {test : Except InstanceFault Bool} {o : Ordering} (hok : ∃ b, test = .ok b)
    (h : test = .ok true ↔ o = .eq) : test = .ok (o == .eq) := by
  obtain ⟨b, rfl⟩ := hok
  rw [Except.ok.injEq] at h
  have hb : b = (o == .eq) := Bool.eq_iff_iff.2 (h.trans beq_iff_eq.symm)
  rw [hb]

/-- **Equality is what the order says about copies.** -/
theorem equalValues_eq_order_copyOf (hr : r.EvaluatesByShape)
    (hd : ∀ c ∈ r.classes, c.DistinctKeys) {a : Json} (hk : a.distinctKeys = true) {b : Json}
    {shape : Shape} (ha : r.Copies a shape) (hb : r.Copies b shape) :
    r.equalValues a shape.comparison shape b =
      .ok ((r.copyOf a shape).order (r.copyOf b shape) == .eq) := by
  induction a using Json.ind_parts generalizing b shape with
  | step a items fields parts =>
    cases ho : shape.comparison.opens a b with
    | false =>
      rw [equalValues_of_not_opens r ho]
      by_cases hrank : shape.comparison.rank a = shape.comparison.rank b
      · -- neither of the two is looked into, so both are their own copies
        have hb' : shape.comparison.opens b b = false := by
          rw [← Comparison.opens_congr hrank, ho]
        have ha' : shape.comparison.opens a a = false := by
          rw [Comparison.opens_congr hrank, Comparison.opens_comm, ho]
        rw [copyOf_eq (r.copyValue_of_not_opens ha'), copyOf_eq (r.copyValue_of_not_opens hb')]
      · -- the ranks decide, and copies keep them
        have hrank' : shape.comparison.rank (r.copyOf a shape) ≠
            shape.comparison.rank (r.copyOf b shape) := by
          rwa [r.rank_copyOf hd ha, r.rank_copyOf hd hb]
        rw [Comparison.order_of_rank_ne hrank, Comparison.order_of_rank_ne hrank',
          r.rank_copyOf hd ha, r.rank_copyOf hd hb]
    | true =>
      cases shape with
      | scalar p => cases ho
      | ofClass name =>
        obtain ⟨hna, hnb⟩ := Comparison.not_null_of_opens ho
        obtain ⟨c, hc⟩ := r.find_of_copies hna ha
        have hdc : c.DistinctKeys := hd c (mem_of_find hc)
        obtain ⟨hpa, hca⟩ := (r.copyValue_class hna hc hdc).1 ha
        obtain ⟨hpb, hcb⟩ := (r.copyValue_class hnb hc hdc).1 hb
        have hpart (p) (hp : p ∈ c.properties) :
            r.equalValues (a.part p.jsonName) p.evaluated p.shape (b.part p.jsonName) =
              .ok ((r.copyOf (a.part p.jsonName) p.shape).order
                (r.copyOf (b.part p.jsonName) p.shape) == .eq) := by
          rw [hr c (mem_of_find hc) p hp]
          exact parts hna p.jsonName (Json.distinctKeys_part hk _) (hpa p hp) (hpb p hp)
        rw [hca, hcb, Shape.comparison]
        apply eq_ok_beq
        · rw [equalValues_structural r hna hnb, hc]
          exact exists_allM_eq_ok fun p hp => ⟨_, hpart p hp⟩
        · rw [equalValues_structural_true r hna hnb, ClassModel.order_shown hdc, hc]
          refine ⟨?_, fun h => ⟨c, rfl, fun p hp => ?_⟩⟩
          · rintro ⟨_, ⟨⟩, h⟩ p hp
            simpa [hpart p hp] using h p hp
          · simpa [hpart p hp] using h p hp
      | array element =>
        obtain ⟨xs, ys, rfl, rfl⟩ := Comparison.lists_of_opens ho
        obtain ⟨hxs, hca⟩ := r.copyValue_array.1 ha
        obtain ⟨hys, hcb⟩ := r.copyValue_array.1 hb
        have hitem (q) (hq : q ∈ xs.zip ys) :
            r.equalValues q.1 element.comparison element q.2 =
              .ok ((r.copyOf q.1 element).order (r.copyOf q.2 element) == .eq) := by
          obtain ⟨hx, hy⟩ := List.of_mem_zip hq
          exact items q.1 hx (Json.distinctKeys_list.1 hk q.1 hx) (hxs q.1 hx) (hys q.2 hy)
        rw [hca, hcb, Shape.comparison]
        apply eq_ok_beq
        · rw [equalValues_sequence]
          split
          · exact exists_allM_eq_ok fun q hq => ⟨_, hitem q hq⟩
          · exact ⟨false, rfl⟩
        · rw [equalValues_sequence_true, Json.order_list_eq_iff, List.forall₂_map_left_iff,
            List.forall₂_map_right_iff, List.forall₂_iff_zip, List.forall₂_iff_zip]
          refine and_congr_right fun _ => forall₂_congr fun x y => imp_congr_right fun hq => ?_
          have hxy := hitem (x, y) hq
          rw [Shape.element, hxy]
          simp
      | map element =>
        obtain ⟨xs, ys, rfl, rfl⟩ := Comparison.objects_of_opens ho
        obtain ⟨hxs, hca⟩ := r.copyValue_map.1 ha
        obtain ⟨hys, hcb⟩ := r.copyValue_map.1 hb
        obtain ⟨hkeys, hkx⟩ := Json.distinctKeys_object.1 hk
        have hentry (f) (hf : f ∈ xs) (y) (hy : Fields.get? ys f.1 = some y) :
            r.equalValues f.2 element.comparison element y =
              .ok ((r.copyOf f.2 element).order (r.copyOf y element) == .eq) :=
          fields f hf (hkx f hf) (hxs f hf) (hys _ (Fields.mem_of_get? hy))
        rw [hca, hcb, Shape.comparison]
        apply eq_ok_beq
        · rw [equalValues_unordered]
          split
          · refine exists_allM_eq_ok fun f hf => ?_
            cases hy : Fields.get? ys f.1 with
            | none => exact ⟨false, by simp [hy]⟩
            | some y => exact ⟨_, by simpa [hy, Shape.element] using hentry f hf y hy⟩
          · exact ⟨false, rfl⟩
        · rw [equalValues_unordered_true r hkeys, Json.order_object_eq_iff, Fields.match_mapValues,
            Fields.match_iff hkeys, Fields.match_iff hkeys]
          refine and_congr_right fun _ => forall₂_congr fun f hf => exists_congr fun y =>
            and_congr_right fun hy => ?_
          rw [Shape.element, hentry f hf y hy]
          simp

theorem not_null_of_deepClone {name : String} {v copy : Json}
    (h : r.deepClone name v = .ok copy) : v.isNull = false := by
  unfold deepClone at h
  split at h
  · cases h
  · next hv => exact Bool.eq_false_iff.2 hv

theorem copyValue_of_deepClone {name : String} {v copy : Json}
    (h : r.deepClone name v = .ok copy) : r.copyValue v (.ofClass name) = .ok copy := by
  rwa [deepClone, if_neg (by simp [not_null_of_deepClone r h])] at h

/-- **Instances are equal exactly if their copies do not differ.** In a registry that was built from a
schema, wherever two instances can be copied, equality does not fail, and it is what the order of plain
values says about the copies. -/
theorem equals_eq_order_deepClone {schema : Schema} {hints : HintTable} {rootClass name : String}
    {r : Registry} {a b copyA copyB : Json}
    (hbuild : Registry.build schema hints rootClass = .ok r) (hschema : schema.DistinctNames)
    (hkeys : a.distinctKeys = true) (ha : r.deepClone name a = .ok copyA)
    (hb : r.deepClone name b = .ok copyB) :
    r.equals name a b = .ok (copyA.order copyB == .eq) := by
  have hca := r.copyValue_of_deepClone ha
  have hcb := r.copyValue_of_deepClone hb
  obtain ⟨c, hc⟩ := r.find_of_copies (r.not_null_of_deepClone ha) (copies_of_eq hca)
  have hequal := r.equalValues_eq_order_copyOf (evaluatesByShape_of_build hbuild)
    (distinctKeys_of_build hbuild hschema) hkeys (copies_of_eq hca) (copies_of_eq hcb)
  rw [copyOf_eq hca, copyOf_eq hcb] at hequal
  rw [equals_eq, hc]
  exact hequal

theorem equals_eq_order_deepClone_trees :
    ∃ copy, trees.deepClone "Tree" aTree = .ok aTree ∧ trees.deepClone "Tree" sameTree = .ok copy ∧
      trees.equals "Tree" aTree sameTree = .ok (aTree.order copy == .eq) ∧
      aTree.order copy = .eq ∧ copy ≠ aTree := by
  -- of the three differences only the order of the marks is left
  let copy : Json := .object [
    ("height", .number (.integer 2)),
    ("below", .list [.object [("height", .number (.integer 1))], .null]),
    ("marks", .object [("age", .null), ("bark", .text "rough")])]
  have ha : trees.deepClone "Tree" aTree = .ok aTree := rfl
  have hb : trees.deepClone "Tree" sameTree = .ok copy := rfl
  exact ⟨copy, ha, hb,
    equals_eq_order_deepClone build_treeSchema distinctNames_treeSchema (by decide) ha hb, by decide,
    by simp [copy, aTree]⟩

end Registry

end Classwright
