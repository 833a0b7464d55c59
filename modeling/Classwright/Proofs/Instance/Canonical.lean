import Classwright.Proofs.Instance.Copy
import Classwright.Proofs.Instance.Hash

/-!
# Copies are canonical

A copy is equal to what it is a copy of, by all three members that look at instances, and it is its own
copy. Copying drops keys and puts them into another order at every depth, so a second copy could change
the first one once more; it does not, since a copy shows the properties of its class in their order.

* **`copyValue_copyOf`** — the induction over a value: what is copied can be copied again, and nothing
  changes.
* **`equalValues_copyOf`** — a value and its copy have the same copy, and copies decide equality.
-/

namespace Classwright

namespace Registry

variable (r : Registry)

/-- **A copy is its own copy.** -/
theorem copyValue_copyOf (hd : ∀ c ∈ r.classes, c.DistinctKeys) {v : Json} {shape : Shape}
    (h : r.Copies v shape) : r.copyValue (r.copyOf v shape) shape = .ok (r.copyOf v shape) := by
  induction v using Json.ind_parts generalizing shape with
  | step v items fields parts =>
    cases ho : shape.comparison.opens v v with
    | false =>
      rw [copyOf_eq (r.copyValue_of_not_opens ho)]
      exact r.copyValue_of_not_opens ho
    | true =>
      cases shape with
      | scalar p => cases ho
      | ofClass name =>
        obtain ⟨hv, -⟩ := Comparison.not_null_of_opens ho
        obtain ⟨c, hc⟩ := r.find_of_copies hv h
        have hdc : c.DistinctKeys := hd c (mem_of_find hc)
        obtain ⟨hcopies, hcopy⟩ := (r.copyValue_class hv hc hdc).1 h
        -- under the name of a property the copy has the copy of that property
        have hagain (p) (hp : p ∈ c.properties) : r.copyValue
            ((r.copyOf v (.ofClass name)).part p.jsonName) p.shape =
              .ok (r.copyOf (v.part p.jsonName) p.shape) := by
          rw [hcopy, ClassModel.part_shown hdc hp]
          exact parts hv p.jsonName (hcopies p hp)
        have hnull : (r.copyOf v (.ofClass name)).isNull = false := by
          rw [hcopy]
          rfl
        refine (r.copyValue_class hnull hc hdc).2 ⟨fun p hp => copies_of_eq (hagain p hp), ?_⟩
        rw [ClassModel.shown_congr fun p hp => copyOf_eq (hagain p hp)]
        exact hcopy
      | array element =>
        obtain ⟨xs, -, rfl, -⟩ := Comparison.lists_of_opens ho
        obtain ⟨hcopies, hcopy⟩ := r.copyValue_array.1 h
        have hagain (x) (hx : x ∈ xs) :
            r.copyValue (r.copyOf x element) element = .ok (r.copyOf x element) :=
          items x hx (hcopies x hx)
        rw [hcopy, copyValue_array, List.map_map]
        refine ⟨List.forall_mem_map.2 fun x hx => copies_of_eq (hagain x hx), ?_⟩
        exact congrArg Json.list (List.map_congr_left fun x hx => (copyOf_eq (hagain x hx)).symm)
      | map element =>
        obtain ⟨xs, -, rfl, -⟩ := Comparison.objects_of_opens ho
        obtain ⟨hcopies, hcopy⟩ := r.copyValue_map.1 h
        have hagain (f) (hf : f ∈ xs) :
            r.copyValue (r.copyOf f.2 element) element = .ok (r.copyOf f.2 element) :=
          fields f hf (hcopies f hf)
        rw [hcopy, copyValue_map, Fields.mapValues, Fields.mapValues, List.map_map]
        refine ⟨List.forall_mem_map.2 fun f hf => copies_of_eq (hagain f hf), ?_⟩
        exact congrArg Json.object
          (List.map_congr_left fun f hf => congrArg (Prod.mk f.1) (copyOf_eq (hagain f hf)).symm)

/-- **A copy is equal to what it is a copy of.** -/
theorem equalValues_copyOf (hr : r.EvaluatesByShape) (hd : ∀ c ∈ r.classes, c.DistinctKeys)
    {v : Json} (hk : v.distinctKeys = true) {shape : Shape} (h : r.Copies v shape) :
    r.equalValues v shape.comparison shape (r.copyOf v shape) = .ok true := by
  have hagain := r.copyValue_copyOf hd h
  rw [r.equalValues_eq_order_copyOf hr hd hk h (copies_of_eq hagain), copyOf_eq hagain,
    Json.order_self]
  rfl

/-- **Copies are equal and canonical.** What can be copied is equal to its copy, has the same hash, and
is not before or after it; and the copy of the copy is the copy, field by field. -/
theorem deepClone_canonical {schema : Schema} {hints : HintTable} {rootClass name : String}
    {r : Registry} {v copy : Json} (hbuild : Registry.build schema hints rootClass = .ok r)
    (hschema : schema.DistinctNames) (hkeys : v.distinctKeys = true)
    (hcopy : r.deepClone name v = .ok copy) :
    r.equals name v copy = .ok true ∧
      (∀ leaf : LeafHash, leaf.Lawful →
        ∃ n, r.hash leaf name v = .ok n ∧ r.hash leaf name copy = .ok n) ∧
      r.order name v copy = .ok .eq ∧
      r.deepClone name copy = .ok copy := by
  have hd := distinctKeys_of_build hbuild hschema
  have hvalue := r.copyValue_of_deepClone hcopy
  obtain ⟨c, hc⟩ := r.find_of_copies (r.not_null_of_deepClone hcopy) (copies_of_eq hvalue)
  have hequal : r.equalValues v (.structural name) (.ofClass name) copy = .ok true := by
    have hcopyOf := r.equalValues_copyOf (evaluatesByShape_of_build hbuild) hd hkeys
      (copies_of_eq hvalue)
    rwa [copyOf_eq hvalue] at hcopyOf
  refine ⟨?_, fun leaf hleaf => hash_agree hleaf hc hkeys hequal, ?_, ?_⟩
  · rw [equals_eq, hc]
    exact hequal
  · rw [order_eq, hc]
    exact (r.orderValues_eq_iff hkeys copy _ _).2 hequal
  · have hagain := r.copyValue_copyOf hd (copies_of_eq hvalue)
    have hnull := Comparison.isNull_eq_of_rank (r.rank_copyOf hd (copies_of_eq hvalue))
    rw [copyOf_eq hvalue] at hagain hnull
    rw [deepClone, if_neg (by simp [hnull, r.not_null_of_deepClone hcopy])]
    exact hagain

theorem deepClone_canonical_looseTree :
    ∃ copy, trees.deepClone "Tree" looseTree = .ok copy ∧
      copy = .object [("height", .number (.integer 2)), ("below", .list [.object [], .object []])] ∧
      trees.equals "Tree" looseTree copy = .ok true ∧ trees.deepClone "Tree" copy = .ok copy := by
  have hcopy : trees.deepClone "Tree" looseTree = .ok (.object [
      ("height", .number (.integer 2)), ("below", .list [.object [], .object []])]) := rfl
  obtain ⟨hequal, -, -, hagain⟩ :=
    deepClone_canonical build_treeSchema distinctNames_treeSchema (by decide) hcopy
  exact ⟨_, hcopy, rfl, hequal, hagain⟩

end Registry

end Classwright
