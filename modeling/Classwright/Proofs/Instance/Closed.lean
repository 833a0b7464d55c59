import Classwright.Proofs.Instance.Hash
import Classwright.Proofs.Instance.Visit
import Classwright.Proofs.Model.ClassNames

/-!
# Instances in closed registries

Equality, order, hashing, copying and visiting look a class up each time a value is of a class. In a
closed registry every such class is there, so none of the five fails, whatever the values are: what does
not fit its shape is passed over or taken as a value. The one fault that is left is a `null` that is to
be copied or visited.

For each of the five there is one induction over values. Where it goes on with parts, the shape or the
comparison of the part names only classes that the whole named, or those of a property of a class.
-/

namespace Classwright

/-! ## Loops whose steps succeed -/

section

variable {α β ε : Type}

theorem exists_foldlM_eq_ok {f : β → α → Except ε β} {l : List α}
    (h : ∀ acc, ∀ x ∈ l, ∃ next, f acc x = .ok next) (acc : β) :
    ∃ result, l.foldlM f acc = .ok result := by
  induction l generalizing acc with
  | nil => exact ⟨acc, rfl⟩
  | cons x l ih =>
    obtain ⟨next, hnext⟩ := h acc x List.mem_cons_self
    rw [List.foldlM_cons, hnext]
    exact ih (fun acc y hy => h acc y (List.mem_cons_of_mem _ hy)) next

theorem exists_firstUnequal_eq_ok {test : α → Except InstanceFault Ordering} {l : List α}
    (h : ∀ x ∈ l, ∃ o, test x = .ok o) : ∃ o, firstUnequal test l = .ok o := by
  induction l with
  | nil => exact ⟨.eq, rfl⟩
  | cons x l ih =>
    obtain ⟨o, ho⟩ := h x List.mem_cons_self
    rw [firstUnequal_cons, ho]
    cases o with
    | eq => exact ih fun y hy => h y (List.mem_cons_of_mem _ hy)
    | lt => exact ⟨.lt, rfl⟩
    | gt => exact ⟨.gt, rfl⟩

end

theorem exists_thenOk_eq_ok (o : Ordering) {rest : Except InstanceFault Ordering}
    (h : ∃ o', rest = .ok o') : ∃ o', thenOk o rest = .ok o' := by
  cases o with
  | eq => exact h
  | lt => exact ⟨.lt, rfl⟩
  | gt => exact ⟨.gt, rfl⟩

namespace Registry

variable {r : Registry}

theorem exists_get? {name : String} (h : name ∈ r.entries.keys) : ∃ c, r.get? name = some c :=
  Fields.mem_keys_iff.1 h

/-- A property is evaluated by its comparison or by its shape, and both name classes that are there. -/
theorem Closed.evaluated (hr : r.Closed) {c : ClassModel} (hc : c ∈ r.classes) {p : Property}
    (hp : p ∈ c.properties) : p.evaluated.classNames ⊆ r.entries.keys := by
  obtain ⟨hshape, hcomparison⟩ := hr c hc p hp
  unfold Property.evaluated
  split
  · rw [Shape.classNames_comparison]
    exact hshape
  · exact hcomparison

theorem Closed.shapeOf (hr : r.Closed) {c : ClassModel} (hc : c ∈ r.classes) (key : String) :
    (c.shapeOf key).classNames ⊆ r.entries.keys := by
  rw [ClassModel.shapeOf, shapeIn]
  cases hp : c.properties.find? (·.jsonName == key) with
  | none => exact List.nil_subset _
  | some p => exact (hr c hc p (List.mem_of_find?_eq_some hp)).1

/-! ## Comparisons -/

theorem exists_equalValues (hr : r.Closed) (a b : Json) {comparison : Comparison}
    (hc : comparison.classNames ⊆ r.entries.keys) (shape : Shape) :
    ∃ e, r.equalValues a comparison shape b = .ok e := by
  induction a using Json.ind_parts generalizing b comparison shape with
  | step a items fields parts =>
    cases ho : comparison.opens a b with
    | false => exact ⟨_, equalValues_of_not_opens r ho shape⟩
    | true =>
      cases comparison with
      | value => cases ho
      | custom comparer => cases ho
      | structural name =>
        obtain ⟨ha, hb⟩ := Comparison.not_null_of_opens ho
        obtain ⟨c, hget⟩ := exists_get? (hc List.mem_cons_self)
        rw [equalValues_structural r ha hb, find_of_get? hget]
        refine exists_allM_eq_ok fun p hp => ?_
        exact parts ha p.jsonName _ (hr.evaluated (mem_of_get? hget) hp) _
      | sequence inner =>
        obtain ⟨xs, ys, rfl, rfl⟩ := Comparison.lists_of_opens ho
        have hinner : inner.classNames ⊆ r.entries.keys := hc
        rw [equalValues_sequence]
        split
        · exact exists_allM_eq_ok fun q hq => items q.1 (List.of_mem_zip hq).1 _ hinner _
        · exact ⟨false, rfl⟩
      | unordered inner =>
        obtain ⟨xs, ys, rfl, rfl⟩ := Comparison.objects_of_opens ho
        have hinner : inner.classNames ⊆ r.entries.keys := hc
        rw [equalValues_unordered]
        split
        · refine exists_allM_eq_ok fun f hf => ?_
          dsimp only
          cases Fields.get? ys f.1 with
          | none => exact ⟨false, rfl⟩
          | some y => exact fields f hf y hinner _
        · exact ⟨false, rfl⟩

theorem exists_orderValues (hr : r.Closed) (a b : Json) {comparison : Comparison}
    (hc : comparison.classNames ⊆ r.entries.keys) (shape : Shape) :
    ∃ o, r.orderValues a comparison shape b = .ok o := by
  induction a using Json.ind_parts generalizing b comparison shape with
  | step a items fields parts =>
    cases ho : comparison.opens a b with
    | false => exact ⟨_, orderValues_of_not_opens r ho shape⟩
    | true =>
      cases comparison with
      | value => cases ho
      | custom comparer => cases ho
      | structural name =>
        obtain ⟨ha, hb⟩ := Comparison.not_null_of_opens ho
        obtain ⟨c, hget⟩ := exists_get? (hc List.mem_cons_self)
        rw [orderValues_structural r ha hb, find_of_get? hget]
        refine exists_firstUnequal_eq_ok fun p hp => ?_
        exact parts ha p.jsonName _ (hr.evaluated (mem_of_get? hget) hp) _
      | sequence inner =>
        obtain ⟨xs, ys, rfl, rfl⟩ := Comparison.lists_of_opens ho
        have hinner : inner.classNames ⊆ r.entries.keys := hc
        rw [orderValues_sequence]
        refine exists_thenOk_eq_ok _ (exists_firstUnequal_eq_ok fun q hq => ?_)
        exact items q.1 (List.of_mem_zip hq).1 _ hinner _
      | unordered inner =>
        obtain ⟨xs, ys, rfl, rfl⟩ := Comparison.objects_of_opens ho
        have hinner : inner.classNames ⊆ r.entries.keys := hc
        rw [orderValues_unordered]
        refine exists_thenOk_eq_ok _ (exists_firstUnequal_eq_ok fun q hq => ?_)
        obtain ⟨key, hkey⟩ := Fields.mem_of_mem_values_sorted (List.of_mem_zip hq).1
        exact fields _ hkey _ hinner _

/-- A value is equal to itself. No value is before or after itself, since the other way round it would
be after or before. -/
theorem equalValues_self (hr : r.Closed) {v : Json} (hk : v.distinctKeys = true)
    {comparison : Comparison} (hc : comparison.classNames ⊆ r.entries.keys) (shape : Shape) :
    r.equalValues v comparison shape v = .ok true := by
  obtain ⟨o, ho⟩ := exists_orderValues hr v v hc shape
  have hswap := r.orderValues_swap v v comparison shape
  rw [ho] at hswap
  have heq : o = .eq := by
    cases o with
    | eq => rfl
    | lt => cases hswap
    | gt => cases hswap
  rw [heq] at ho
  exact (r.orderValues_eq_iff hk v comparison shape).1 ho

/-! ## Hashes -/

theorem exists_hashProperties {leaf : LeafHash} {c : ClassModel} {v : Json}
    (h : ∀ p ∈ c.properties, ∀ acc,
      ∃ n, r.hashInto leaf (v.part p.jsonName) p.evaluated p.shape acc = .ok n) :
    ∃ n, hashProperties c (fun key => r.hashInto leaf (v.part key)) = .ok n :=
  exists_foldlM_eq_ok (fun acc p hp => h p hp acc) hashSeed

theorem exists_hashInto (leaf : LeafHash) (hr : r.Closed) (v : Json) {comparison : Comparison}
    (hc : comparison.classNames ⊆ r.entries.keys) (shape : Shape) (acc : Int32) :
    ∃ n, r.hashInto leaf v comparison shape acc = .ok n := by
  induction v using Json.ind_parts generalizing comparison shape acc with
  | step v items fields parts =>
    cases hv : v.isNull with
    | true =>
      cases Json.eq_null_of_isNull hv
      obtain ⟨n, hn, -⟩ := hashNull_agree comparison shape acc
      exact ⟨n, hn⟩
    | false =>
      cases ho : comparison.opens v v with
      | false => exact ⟨_, hashInto_of_not_opens leaf r hv ho shape acc⟩
      | true =>
        cases comparison with
        | value => cases ho
        | custom comparer => cases ho
        | structural name =>
          obtain ⟨c, hget⟩ := exists_get? (hc List.mem_cons_self)
          obtain ⟨n, hn⟩ := exists_hashProperties fun p hp acc =>
            parts hv p.jsonName (hr.evaluated (mem_of_get? hget) hp) p.shape acc
          rw [hashInto_structural leaf r hv, find_of_get? hget, Except.bind, hn]
          exact ⟨_, rfl⟩
        | sequence inner =>
          obtain ⟨xs, _, rfl, -⟩ := Comparison.lists_of_opens ho
          have hinner : inner.classNames ⊆ r.entries.keys := hc
          rw [hashInto_sequence]
          exact exists_foldlM_eq_ok (fun acc x hx => items x hx hinner shape.element acc) acc
        | unordered inner =>
          obtain ⟨xs, _, rfl, -⟩ := Comparison.objects_of_opens ho
          have hinner : inner.classNames ⊆ r.entries.keys := hc
          have hentry : ∀ sum, ∀ f ∈ xs, ∃ next, addHash (r.entryHash leaf inner shape) sum f =
              .ok next := by
            intro sum f hf
            obtain ⟨n, hn⟩ := fields f hf hinner shape.element (leaf.text f.1)
            exact ⟨sum + n, addHash_eq_ok.2 ⟨n, hn, rfl⟩⟩
          obtain ⟨n, hn⟩ := exists_foldlM_eq_ok hentry 0
          rw [hashInto_unordered, hn]
          exact ⟨_, rfl⟩

/-! ## Copies and visits -/

theorem exists_copyValue (hr : r.Closed) (v : Json) {shape : Shape}
    (hs : shape.classNames ⊆ r.entries.keys) : ∃ copy, r.copyValue v shape = .ok copy := by
  induction v using Json.ind_parts generalizing shape with
  | step v items fields parts =>
    cases ho : shape.comparison.opens v v with
    | false => exact ⟨v, copyValue_of_not_opens r ho⟩
    | true =>
      cases shape with
      | scalar p => cases ho
      | ofClass name =>
        have hv := (Comparison.not_null_of_opens ho).1
        obtain ⟨c, hget⟩ := exists_get? (hs List.mem_cons_self)
        have hstep : ∀ done, ∀ p ∈ c.properties, ∃ next,
            addCopy (fun p => r.copyValue (v.part p.jsonName) p.shape) done p = .ok next := by
          intro done p hp
          obtain ⟨copy, hcopy⟩ := parts hv p.jsonName (hr c (mem_of_get? hget) p hp).1
          rw [addCopy, hcopy]
          exact ⟨_, rfl⟩
        obtain ⟨copied, hcopied⟩ := exists_foldlM_eq_ok hstep []
        rw [copyValue_ofClass r hv (find_of_get? hget), hcopied]
        exact ⟨_, rfl⟩
      | array element =>
        obtain ⟨xs, _, rfl, -⟩ := Comparison.lists_of_opens ho
        have helement : element.classNames ⊆ r.entries.keys := hs
        refine ⟨_, r.copyValue_array.2 ⟨fun x hx => ?_, rfl⟩⟩
        obtain ⟨copy, hcopy⟩ := items x hx helement
        exact copies_of_eq hcopy
      | map element =>
        obtain ⟨xs, _, rfl, -⟩ := Comparison.objects_of_opens ho
        have helement : element.classNames ⊆ r.entries.keys := hs
        refine ⟨_, r.copyValue_map.2 ⟨fun f hf => ?_, rfl⟩⟩
        obtain ⟨copy, hcopy⟩ := fields f hf helement
        exact copies_of_eq hcopy

/-- The properties of an instance, if each of them can be visited where it is there. -/
theorem exists_visitedProperties {f : String → Json → Json} {c : ClassModel} {given : Fields Json}
    (h : ∀ p ∈ c.properties, ∀ v, given.get? p.jsonName = some v →
      ∃ visited, r.visitValue f v p.shape = .ok visited) :
    ∃ done, visitProperties c given (Fields.mapValues (r.visitValue f) given) = .ok done := by
  rw [visitProperties_eq_foldlM]
  refine exists_foldlM_eq_ok (fun acc p hp => ?_) _
  unfold visitPart
  rw [Fields.get?_mapValues]
  cases hget : given.get? p.jsonName with
  | none => exact ⟨acc, rfl⟩
  | some v =>
    obtain ⟨visited, hvisited⟩ := h p (List.mem_filter.1 hp).1 v hget
    rw [Option.map_some]
    dsimp only
    rw [hvisited]
    exact ⟨_, rfl⟩

theorem exists_visitValue (f : String → Json → Json) (hr : r.Closed) (v : Json) {shape : Shape}
    (hs : shape.classNames ⊆ r.entries.keys) : ∃ visited, r.visitValue f v shape = .ok visited := by
  induction v using Json.ind_parts generalizing shape with
  | step v items fields _ =>
    cases shape with
    | scalar p => exact ⟨_, visitValue_scalar v p⟩
    | ofClass name =>
      obtain ⟨c, hget⟩ := exists_get? (hs List.mem_cons_self)
      cases v with
      | null => exact ⟨_, visitValue_null _⟩
      | object given =>
        obtain ⟨done, hdone⟩ : ∃ done, visitProperties c given
            (Fields.mapValues (r.visitValue f) given) = .ok done :=
          exists_visitedProperties fun p hp v hv =>
            fields _ (Fields.mem_of_get? hv) (hr c (mem_of_get? hget) p hp).1
        rw [visitValue_ofClass (find_of_get? hget), hdone]
        exact ⟨_, rfl⟩
      | _ =>
        rw [visitValue_eq]
        simp only [visitStep, find_of_get? hget]
        exact ⟨_, rfl⟩
    | array element =>
      have helement : element.classNames ⊆ r.entries.keys := hs
      cases v with
      | list xs =>
        refine ⟨_, visitValue_array fun x hx => ?_⟩
        obtain ⟨visited, hvisited⟩ := items x hx helement
        exact rewrites_of_eq hvisited
      | _ =>
        rw [visitValue_eq]
        exact ⟨_, rfl⟩
    | map element =>
      have helement : element.classNames ⊆ r.entries.keys := hs
      cases v with
      | object xs =>
        refine ⟨_, visitValue_map fun e he => ?_⟩
        obtain ⟨visited, hvisited⟩ := fields e he helement
        exact rewrites_of_eq hvisited
      | _ =>
        rw [visitValue_eq]
        exact ⟨_, rfl⟩

theorem rewrites_of_closed {f : String → Json → Json} (hr : r.Closed) {v : Json} {shape : Shape}
    (hs : shape.classNames ⊆ r.entries.keys) : r.Rewrites f v shape := by
  obtain ⟨visited, hvisited⟩ := exists_visitValue f hr v hs
  exact rewrites_of_eq hvisited

/-! ## Classes of a registry -/

variable {s : Schema} {hints : HintTable} {rootClass : String}

/-- **Where everything that is named exists, no class is ever missing.** The registry is closed. For
each of its classes and all values, equality, order and hash have a result, and so do visits and
copies, of everything but `null`. -/
theorem every_class_known_of_build (hbuild : build s hints rootClass = .ok r)
    (hres : (s.scope hints).Resolves (s.classSources rootClass)) :
    r.Closed ∧ ∀ name ∈ r.names, ∀ a b,
      (∃ e, r.equals name a b = .ok e) ∧
      (∃ o, r.order name a b = .ok o) ∧
      (∀ leaf, ∃ n, r.hash leaf name a = .ok n) ∧
      (∀ f fault, r.visit f name a = .error fault → fault = .nullArgument "node" ∧ a = .null) ∧
      ∀ fault, r.deepClone name a = .error fault → fault = .nullArgument "other" ∧ a = .null := by
  have hr := closed_of_build hbuild hres
  refine ⟨hr, fun name hname a b => ?_⟩
  rw [names_of_build hbuild] at hname
  obtain ⟨c, hget⟩ := exists_get? hname
  have hfind := find_of_get? hget
  have hclass : (Shape.ofClass name).classNames ⊆ r.entries.keys :=
    List.cons_subset.2 ⟨hname, List.nil_subset _⟩
  have hstructural : (Comparison.structural name).classNames ⊆ r.entries.keys := hclass
  refine ⟨?_, ?_, fun leaf => ?_, fun f fault => ?_, fun fault => ?_⟩
  · rw [equals_eq, hfind]
    exact exists_equalValues hr a b hstructural _
  · rw [order_eq, hfind]
    exact exists_orderValues hr a b hstructural _
  · obtain ⟨n, hn⟩ := exists_hashProperties fun p hp acc =>
      exists_hashInto leaf hr (a.part p.jsonName) (hr.evaluated (mem_of_get? hget) hp) p.shape acc
    rw [hash, hfind]
    exact ⟨n, hn⟩
  · unfold visit
    split
    · next hnull =>
      rintro ⟨⟩
      exact ⟨rfl, Json.eq_null_of_isNull hnull⟩
    · obtain ⟨visited, hvisited⟩ := exists_visitValue f hr a hclass
      rw [hvisited]
      rintro ⟨⟩
  · unfold deepClone
    split
    · next hnull =>
      rintro ⟨⟩
      exact ⟨rfl, Json.eq_null_of_isNull hnull⟩
    · obtain ⟨copy, hcopy⟩ := exists_copyValue hr a hclass
      rw [hcopy]
      rintro ⟨⟩

theorem every_class_known_of_build_forest :
    build forestSchema forestHints "Root" = .ok forest ∧ forest.Closed ∧
      ∀ a b, ∃ e, forest.equals "Tree" a b = .ok e := by
  obtain ⟨hclosed, hknown⟩ := every_class_known_of_build build_forestSchema forest_resolves
  exact ⟨build_forestSchema, hclosed, fun a b => (hknown "Tree" List.mem_cons_self a b).1⟩

end Registry

end Classwright
