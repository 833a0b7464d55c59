import Classwright.Proofs.Instance.Closed

/-!
# Visits that keep values equal

A substitution may put another value in place of each instance, as long as it is equal to it. The values
that are put together this way are equal too: an instance is equal to the one whose properties are
visited, since each property is equal to its visit, and that one is equal to what the substitution makes
of it. So equality has to be transitive (`equalValues_trans`), and has to go through the properties of
instances, the items of lists and the entries of maps (`equalValues_rewritten`).
-/

namespace Classwright

namespace Registry

variable {r : Registry} {f : String → Json → Json}

/-- Whether a substitution puts equal values in place of instances. Values repeat no key, before and
after it. -/
structure KeepsEqual (r : Registry) (f : String → Json → Json) : Prop where
  equals : ∀ name ∈ r.entries.keys, ∀ v : Json, v.isNull = false → v.distinctKeys = true →
    r.equals name v (f name v) = .ok true
  distinctKeys : ∀ name v, v.distinctKeys = true → (f name v).distinctKeys = true

/-- **A value is equal to its visit.** -/
theorem equalValues_rewritten (hr : r.Closed) (hkeyed : r.Keyed) (hvisits : r.VisitsByShape)
    (he : r.EvaluatesByShape) (hd : ∀ c ∈ r.classes, c.DistinctKeys) (hf : r.KeepsEqual f) {v : Json}
    (hk : v.distinctKeys = true) {shape : Shape} (hs : shape.classNames ⊆ r.entries.keys) :
    r.equalValues v shape.comparison shape (r.rewritten f v shape).value = .ok true ∧
      (r.rewritten f v shape).value.distinctKeys = true := by
  induction v using Json.ind_parts generalizing shape with
  | step v items fields parts =>
    cases ho : shape.comparison.opens v v with
    | false =>
      rw [rewritten_eq (visitValue_of_not_opens ho)]
      exact ⟨(r.equalValues_true_of_not_opens ho).2 (Json.order_self v), hk⟩
    | true =>
      cases shape with
      | scalar p => cases ho
      | ofClass name =>
        have hname : name ∈ r.entries.keys := hs List.mem_cons_self
        have hnull := (Comparison.not_null_of_opens ho).1
        obtain ⟨c, hc⟩ := exists_get? hname
        have hmem := mem_of_get? hc
        obtain ⟨hkeys, hvalues⟩ := Json.distinctKeys_fields hk
        obtain ⟨visits, hvisit, -⟩ := visitValue_class_eq hkeyed hc (hd c hmem) (hvisits c hmem)
          hnull hkeys fun p hp x => rewrites_of_closed (f := f) hr (hr c hmem p hp).1
        -- the instance with its fields visited, before it is replaced
        let inner := v.mapFields fun key x => (r.rewritten f x (c.shapeOf key)).value
        have hinner : inner.isNull = false := Json.isNull_mapFields.trans hnull
        have hkinner : inner.distinctKeys = true := Json.distinctKeys_mapFields hk fun e h =>
          (fields e h (hvalues e h) (hr.shapeOf hmem e.1)).2
        have hpart (p) (hp : p ∈ c.properties) :
            inner.part p.jsonName = (r.rewritten f (v.part p.jsonName) p.shape).value := by
          have hnone : (r.rewritten f .null (c.shapeOf p.jsonName)).value = .null :=
            congrArg Visited.value (rewritten_eq (visitValue_null _))
          rw [Json.part_mapFields hnone, ClassModel.shapeOf, shapeIn_eq_of_mem (hd c hmem) hp]
        -- it is equal to the instance property by property, and to what takes its place
        have hproperties : r.equalValues v (.structural name) (.ofClass name) inner = .ok true := by
          rw [equalValues_structural_true r hnull hinner]
          refine ⟨c, find_of_get? hc, fun p hp => ?_⟩
          rw [hpart p hp, he c hmem p hp]
          exact (parts hnull p.jsonName (Json.distinctKeys_part hk _) (hr c hmem p hp).1).1
        have hreplaced : r.equalValues inner (.structural name) (.ofClass name) (f name inner) =
            .ok true := by
          have hequal := hf.equals name hname inner hinner hkinner
          rwa [equals_eq, find_of_get? hc] at hequal
        rw [rewritten_eq hvisit]
        exact ⟨r.equalValues_trans hk hkinner hproperties hreplaced,
          hf.distinctKeys name inner hkinner⟩
      | array element =>
        obtain ⟨xs, -, rfl, -⟩ := Comparison.lists_of_opens ho
        have helement : element.classNames ⊆ r.entries.keys := hs
        have hitem (x) (hx : x ∈ xs) := items x hx (Json.distinctKeys_list.1 hk x hx) helement
        rw [rewritten_eq (visitValue_array fun x _ => rewrites_of_closed hr helement)]
        refine ⟨(equalValues_sequence_true r).2 ?_, Json.distinctKeys_list.2 ?_⟩
        · rw [List.forall₂_map_right_iff, List.forall₂_same]
          exact fun x hx => (hitem x hx).1
        · exact List.forall_mem_map.2 fun x hx => (hitem x hx).2
      | map element =>
        obtain ⟨xs, -, rfl, -⟩ := Comparison.objects_of_opens ho
        have helement : element.classNames ⊆ r.entries.keys := hs
        obtain ⟨hkeys, hvalues⟩ := Json.distinctKeys_object.1 hk
        have hentry (e) (h : e ∈ xs) := fields e h (hvalues e h) helement
        rw [rewritten_eq (visitValue_map fun e _ => rewrites_of_closed hr helement)]
        refine ⟨(equalValues_unordered_true r hkeys).2 ((Fields.match_iff hkeys).2 ⟨?_, ?_⟩),
          Json.distinctKeys_object.2 ⟨?_, ?_⟩⟩
        · exact (Fields.length_mapValues _ _).symm
        · intro e h
          rw [Fields.get?_mapValues, Fields.get?_of_mem hkeys h]
          exact ⟨_, rfl, (hentry e h).1⟩
        · rwa [Fields.keys_mapValues]
        · exact List.forall_mem_map.2 fun e h => (hentry e h).2

/-- **Visits respect equality.** In a model in which every class that is named is there, a visit with a
substitution that puts equal values in place of instances succeeds, and its result is equal to what was
visited and has the same hash. -/
theorem visit_respects_equality {schema : Schema} {hints : HintTable} {rootClass : String}
    (hbuild : Registry.build schema hints rootClass = .ok r) (hschema : schema.DistinctNames)
    (hclosed : r.Closed) (hf : r.KeepsEqual f) {name : String} (hname : name ∈ r.names) {node : Json}
    (hnull : node.isNull = false) (hkeys : node.distinctKeys = true) :
    ∃ visited, r.visit f name node = .ok visited ∧
      r.equals name node visited.value = .ok true ∧
      ∀ leaf : LeafHash, leaf.Lawful →
        ∃ n, r.hash leaf name node = .ok n ∧ r.hash leaf name visited.value = .ok n := by
  rw [names_of_build hbuild] at hname
  have hs : (Shape.ofClass name).classNames ⊆ r.entries.keys :=
    List.cons_subset.2 ⟨hname, List.nil_subset _⟩
  obtain ⟨c, hc⟩ := exists_get? hname
  have hequal := (equalValues_rewritten hclosed (keyed_of_build hbuild)
    (visitsByShape_of_build hbuild) (evaluatesByShape_of_build hbuild)
    (distinctKeys_of_build hbuild hschema) hf hkeys hs).1
  refine ⟨r.rewritten f node (.ofClass name), ?_, ?_, fun leaf hleaf => ?_⟩
  · rw [visit, hnull]
    exact rewrites_of_closed hclosed hs
  · rw [equals_eq, find_of_get? hc]
    exact hequal
  · exact hash_agree hleaf (find_of_get? hc) hkeys hequal

/-- Notes that a tree was seen, under a key of no property. -/
def markSeen (_ : String) : Json → Json
  | .object fields => .object (Fields.insert fields "seen" (.bool true))
  | v => v

theorem keepsEqual_markSeen : trees.KeepsEqual markSeen where
  equals name hname v hnull hkeys := by
    obtain ⟨c, hc⟩ := exists_get? hname
    have hmem := mem_of_get? hc
    have hseen : (markSeen name v).isNull = false := by
      cases v with
      | null => cases hnull
      | _ => rfl
    -- no property is called so
    have hpart (p) (hp : p ∈ c.properties) :
        (markSeen name v).part p.jsonName = v.part p.jsonName := by
      have hne : p.jsonName ≠ "seen" := by
        have hall : ∀ c ∈ trees.classes, ∀ p ∈ c.properties, p.jsonName ≠ "seen" := by decide
        exact hall c hmem p hp
      cases v with
      | object fields =>
        rw [markSeen, Json.part_eq, Json.part_eq, Json.fields, Json.fields, Fields.get?_insert,
          if_neg hne]
      | _ => rfl
    rw [equals_eq, find_of_get? hc]
    refine (equalValues_structural_true trees hnull hseen).2 ⟨c, find_of_get? hc, fun p hp => ?_⟩
    rw [hpart p hp]
    exact equalValues_self closed_trees (Json.distinctKeys_part hkeys _)
      (closed_trees.evaluated hmem hp) p.shape
  distinctKeys name v hkeys := by
    cases v with
    | object fields =>
      obtain ⟨hnodup, hvalues⟩ := Json.distinctKeys_object.1 hkeys
      refine Json.distinctKeys_object.2 ⟨Fields.nodup_keys_insert hnodup _ _, fun e he => ?_⟩
      rcases Fields.mem_insert he with rfl | he
      · rfl
      · exact hvalues e he
    | _ => exact hkeys

theorem visit_respects_equality_trees :
    ∃ visited, trees.visit markSeen "Tree" aTree = .ok visited ∧
      visited.visits = ["Tree", "Tree"] ∧ visited.value.part "seen" = .bool true ∧
      trees.equals "Tree" aTree visited.value = .ok true ∧
      ∃ n, trees.hash .sip "Tree" aTree = .ok n ∧ trees.hash .sip "Tree" visited.value = .ok n := by
  have hname : "Tree" ∈ trees.names := by decide
  have hkeys : aTree.distinctKeys = true := by decide
  obtain ⟨visited, hvisit, hequal, hhash⟩ := visit_respects_equality build_treeSchema
    distinctNames_treeSchema closed_trees keepsEqual_markSeen hname rfl hkeys
  refine ⟨visited, hvisit, ?_, ?_, hequal, hhash .sip LeafHash.lawful_sip⟩
  · cases hvisit
    rfl
  · cases hvisit
    rfl

end Registry

end Classwright
