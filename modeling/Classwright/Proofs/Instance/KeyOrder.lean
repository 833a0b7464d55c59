import Classwright.Proofs.Instance.Closed

/-!
# The order of keys

A JSON object is a set of entries, but a value holds them in some order. Objects turn up in three ways:
as instances, whose fields are looked up by name; as maps, which are hashed as a sum and ordered by their
sorted keys; and inside values of no shape. In none of them does the order of the entries count.

## The architecture

* **`Json.Reordered`** — a value with the entries of its objects in another order, at every depth.
  `Reordered.items`, `Reordered.fields` and `Reordered.part` say what this means for the parts of a value;
  no later proof opens the relation.
* **`equalValues_of_reordered`** — such values are equal by every comparison. This is the one induction
  over instances.
* **`orderValues_congr`** — equal values can stand for each other in the order, since it is a total
  preorder; equality and hashes follow.
-/

namespace Classwright

/-! ## Values in another order -/

namespace Json

/-- The same value with the entries of its objects in another order: the value of each entry is
reordered, and then the entries change places. -/
inductive Reordered : Json → Json → Prop where
  | same (v : Json) : Reordered v v
  | list {xs ys : List Json} (h : List.Forall₂ Reordered xs ys) : Reordered (list xs) (list ys)
  | object {xs ys zs : Fields Json} (hkeys : xs.keys = ys.keys)
      (hvalues : List.Forall₂ Reordered xs.values ys.values) (hperm : ys.Perm zs) :
      Reordered (object xs) (object zs)

end Json

/-- Fields with the same keys in the same places, and related values. -/
theorem Fields.forall₂_of_values {α β : Type} {P : α → β → Prop} {xs : Fields α} {ys : Fields β}
    (hk : xs.keys = ys.keys) (hv : List.Forall₂ P xs.values ys.values) :
    List.Forall₂ (fun f g => f.1 = g.1 ∧ P f.2 g.2) xs ys := by
  induction xs generalizing ys with
  | nil =>
    cases ys with
    | nil => exact .nil
    | cons g ys => cases hk
  | cons f xs ih =>
    cases ys with
    | nil => cases hk
    | cons g ys =>
      rw [keys_cons, keys_cons, List.cons.injEq] at hk
      obtain ⟨hfg, hrest⟩ := List.forall₂_cons.1 hv
      exact .cons ⟨hk.1, hfg⟩ (ih hk.2 hrest)

namespace Json

variable {a b : Json}

theorem Reordered.kindRank_eq (h : a.Reordered b) : a.kindRank = b.kindRank := by
  cases h <;> rfl

/-- The items of a list stay in their places. -/
theorem Reordered.items (h : a.Reordered b) : List.Forall₂ Reordered a.items b.items := by
  cases h with
  | same => exact List.forall₂_same.2 fun v _ => .same v
  | list h => exact h
  | object => exact .nil

/-- Each field of an object goes with one of the same key. -/
theorem Reordered.exists_perm (h : a.Reordered b) :
    ∃ ys : Fields Json, ys.Perm b.fields ∧
      List.Forall₂ (fun f g => f.1 = g.1 ∧ f.2.Reordered g.2) a.fields ys := by
  cases h with
  | same => exact ⟨a.fields, .refl _, List.forall₂_same.2 fun f _ => ⟨rfl, .same f.2⟩⟩
  | list => exact ⟨[], .refl _, .nil⟩
  | object hkeys hvalues hperm => exact ⟨_, hperm, Fields.forall₂_of_values hkeys hvalues⟩

theorem Reordered.length_fields (h : a.Reordered b) : a.fields.length = b.fields.length := by
  obtain ⟨ys, hperm, hfields⟩ := h.exists_perm
  exact hfields.length_eq.trans hperm.length_eq

theorem Reordered.keys_perm (h : a.Reordered b) : a.fields.keys.Perm b.fields.keys := by
  obtain ⟨ys, hperm, hfields⟩ := h.exists_perm
  rw [Fields.keys_eq_of_forall₂ hfields]
  exact hperm.map Prod.fst

/-- A key leads to the same value, in another order. -/
theorem Reordered.fields (h : a.Reordered b) (hd : a.fields.keys.Nodup) :
    ∀ f ∈ a.fields, ∃ w, b.fields.get? f.1 = some w ∧ f.2.Reordered w := by
  intro f hf
  obtain ⟨ys, hperm, hfields⟩ := h.exists_perm
  obtain ⟨g, hg, hkey, hvalue⟩ := hfields.exists_of_mem hf
  refine ⟨g.2, Fields.get?_of_mem (h.keys_perm.nodup_iff.1 hd) ?_, hvalue⟩
  rw [hkey]
  exact hperm.mem_iff.1 hg

theorem Reordered.part (h : a.Reordered b) (hd : a.fields.keys.Nodup) (key : String) :
    (a.part key).Reordered (b.part key) := by
  rw [part_eq, part_eq]
  cases hget : Fields.get? a.fields key with
  | some v =>
    obtain ⟨w, hw, hvw⟩ := h.fields hd _ (Fields.mem_of_get? hget)
    rw [hw]
    exact hvw
  | none =>
    -- no field has this key, before or after
    have hkey : key ∉ b.fields.keys := fun hmem => by
      obtain ⟨f, hf, rfl⟩ := List.mem_map.1 (h.keys_perm.mem_iff.2 hmem)
      rw [Fields.get?_of_mem hd hf] at hget
      cases hget
    rw [Fields.get?_eq_none hkey]
    exact .same null

/-- Reordering repeats no key. -/
theorem Reordered.distinctKeys (h : a.Reordered b) (ha : a.distinctKeys = true) :
    b.distinctKeys = true := by
  induction a generalizing b with
  | list xs ih =>
    cases h with
    | same => exact ha
    | list h =>
      refine distinctKeys_list.2 fun y hy => ?_
      obtain ⟨x, hx, hxy⟩ := h.flip.exists_of_mem hy
      exact ih x hx hxy (distinctKeys_list.1 ha x hx)
  | object xs ih =>
    obtain ⟨ys, hperm, hfields⟩ := h.exists_perm
    have hkeys := h.keys_perm
    have hkind := h.kindRank_eq
    cases b with
    | object zs =>
      obtain ⟨hd, hvalues⟩ := distinctKeys_object.1 ha
      refine distinctKeys_object.2 ⟨hkeys.nodup_iff.1 hd, fun g hg => ?_⟩
      obtain ⟨f, hf, -, hfg⟩ := hfields.flip.exists_of_mem (hperm.mem_iff.2 hg)
      exact ih f hf hfg (hvalues f hf)
    | _ => cases hkind
  | _ =>
    cases h
    exact ha

/-- **Values in another order do not differ.** -/
theorem Reordered.order_eq (h : a.Reordered b) (ha : a.distinctKeys = true) : a.order b = .eq := by
  induction a generalizing b with
  | list xs ih =>
    cases h with
    | same => exact order_self _
    | list h =>
      refine order_list_eq_iff.2 (.imp_of_mem (fun x hx y hxy => ?_) h)
      exact ih x hx hxy (distinctKeys_list.1 ha x hx)
  | object xs ih =>
    obtain ⟨hd, hvalues⟩ := distinctKeys_object.1 ha
    have hkind := h.kindRank_eq
    cases b with
    | object zs =>
      refine order_object_eq_iff.2 ((Fields.match_iff hd).2 ⟨h.length_fields, fun f hf => ?_⟩)
      obtain ⟨w, hw, hfw⟩ := h.fields hd f hf
      exact ⟨w, hw, ih f hf hfw (hvalues f hf)⟩
    | _ => cases hkind
  | _ =>
    cases h
    exact order_self _

end Json

namespace Registry

variable {r : Registry}

/-- **Values in another order are equal**, by every comparison that names known classes. -/
theorem equalValues_of_reordered (hr : r.Closed) {a b : Json} (h : a.Reordered b)
    (ha : a.distinctKeys = true) {comparison : Comparison} (hc : comparison.classNames ⊆ r.entries.keys)
    (shape : Shape) : r.equalValues a comparison shape b = .ok true := by
  induction a using Json.ind_parts generalizing b comparison shape with
  | step a items fields parts =>
    cases ho : comparison.opens a b with
    | false => exact (equalValues_true_of_not_opens r ho).2 (h.order_eq ha)
    | true =>
      obtain ⟨hd, hvalues⟩ := Json.distinctKeys_fields ha
      cases comparison with
      | value => cases ho
      | custom comparer => cases ho
      | structural name =>
        obtain ⟨hna, hnb⟩ := Comparison.not_null_of_opens ho
        obtain ⟨c, hget⟩ := exists_get? (hc List.mem_cons_self)
        refine (equalValues_structural_true r hna hnb).2 ⟨c, find_of_get? hget, fun p hp => ?_⟩
        exact parts hna p.jsonName (h.part hd _) (Json.distinctKeys_part ha _)
          (hr.evaluated (mem_of_get? hget) hp) _
      | sequence inner =>
        obtain ⟨xs, ys, rfl, rfl⟩ := Comparison.lists_of_opens ho
        have hinner : inner.classNames ⊆ r.entries.keys := hc
        refine (equalValues_sequence_true r).2 (.imp_of_mem (fun x hx y hxy => ?_) h.items)
        exact items x hx hxy (Json.distinctKeys_list.1 ha x hx) hinner _
      | unordered inner =>
        obtain ⟨xs, ys, rfl, rfl⟩ := Comparison.objects_of_opens ho
        have hinner : inner.classNames ⊆ r.entries.keys := hc
        refine (equalValues_unordered_true r hd).2
          ((Fields.match_iff hd).2 ⟨h.length_fields, fun f hf => ?_⟩)
        obtain ⟨w, hw, hfw⟩ := h.fields hd f hf
        exact ⟨w, hw, fields f hf hfw (hvalues f hf) hinner _⟩

/-! ## Equal values stand for each other -/

/-- Where there is no difference between two values and two others, the first two are in the order of the
others. -/
theorem orderValues_congr {a a' b b' : Json} {comparison : Comparison} {shape : Shape}
    (ha : r.orderValues a comparison shape a' = .ok .eq)
    (hb : r.orderValues b comparison shape b' = .ok .eq) {o : Ordering}
    (h : r.orderValues a comparison shape b = .ok o) :
    r.orderValues a' comparison shape b' = .ok o := by
  have hswap (x y : Json) (o : Ordering) (hxy : r.orderValues x comparison shape y = .ok o) :
      r.orderValues y comparison shape x = .ok o.swap := by
    rw [r.orderValues_swap, hxy]
    rfl
  -- up to the first pair and on from the second, where neither step goes down
  have hup (x x' y y' : Json) (hx : r.orderValues x' comparison shape x = .ok .eq)
      (hy : r.orderValues y comparison shape y' = .ok .eq) (o : Ordering) (hgt : o ≠ .gt)
      (hxy : r.orderValues x comparison shape y = .ok o) :
      r.orderValues x' comparison shape y' = .ok o := by
    have hx'y : r.orderValues x' comparison shape y = .ok o :=
      r.orderValues_chain x' x y comparison shape .eq o hx hxy (by decide) hgt
    have hx'y' := r.orderValues_chain x' y y' comparison shape o .eq hx'y hy hgt (by decide)
    rwa [Ordering.then_eq] at hx'y'
  cases o with
  | gt =>
    -- the other way round the first pair is below the second
    have hlt := hup b b' a a' (hswap _ _ _ hb) ha .lt (by decide) (hswap _ _ _ h)
    exact hswap _ _ _ hlt
  | lt => exact hup a a' b b' (hswap _ _ _ ha) hb .lt (by decide) h
  | eq => exact hup a a' b b' (hswap _ _ _ ha) hb .eq (by decide) h

/-- **The order of keys never matters.** In a model in which every class that is named is there, two
instances of a class are compared like the same two with the entries of their objects in another order,
and each has the hash of its reordering. Values that are read repeat no key
(`Json.distinctKeys_collapse`). -/
theorem evaluation_of_reordered (hr : r.Closed) {name : String} (hname : name ∈ r.entries.keys)
    {a a' b b' : Json} (ha : a.Reordered a') (hb : b.Reordered b') (hka : a.distinctKeys = true)
    (hkb : b.distinctKeys = true) :
    r.equals name a b = r.equals name a' b' ∧
      r.order name a b = r.order name a' b' ∧
      ∀ leaf : LeafHash, leaf.Lawful → r.hash leaf name a = r.hash leaf name a' := by
  have hc : (Comparison.structural name).classNames ⊆ r.entries.keys :=
    List.cons_subset.2 ⟨hname, List.nil_subset _⟩
  obtain ⟨c, hget⟩ := exists_get? hname
  have hequalA := equalValues_of_reordered hr ha hka hc (.ofClass name)
  have hequalB := equalValues_of_reordered hr hb hkb hc (.ofClass name)
  obtain ⟨o, ho⟩ := exists_orderValues hr a b hc (.ofClass name)
  have ho' := orderValues_congr ((r.orderValues_eq_iff hka a' _ _).2 hequalA)
    ((r.orderValues_eq_iff hkb b' _ _).2 hequalB) ho
  rw [equals_eq, equals_eq, order_eq, order_eq, find_of_get? hget]
  refine ⟨?_, ho.trans ho'.symm, fun leaf hleaf => ?_⟩
  · -- both tests succeed, and each passes where the order finds no difference
    obtain ⟨e, he⟩ := exists_equalValues hr a b hc (.ofClass name)
    obtain ⟨e', he'⟩ := exists_equalValues hr a' b' hc (.ofClass name)
    have htrue := r.orderValues_eq_iff hka b (.structural name) (.ofClass name)
    have htrue' := r.orderValues_eq_iff (ha.distinctKeys hka) b' (.structural name) (.ofClass name)
    rw [ho, he] at htrue
    rw [ho', he'] at htrue'
    have hee' : e = e' := Bool.eq_iff_iff.2 (by simpa using htrue.symm.trans htrue')
    exact he.trans (hee' ▸ he'.symm)
  · obtain ⟨n, hn, hn'⟩ := hash_agree hleaf (find_of_get? hget) hka hequalA
    exact hn.trans hn'.symm

/-- `aTree` with its properties, and its marks, the other way round. -/
def turnedTree : Json := .object [
  ("marks", .object [("age", .null), ("bark", .text "rough")]),
  ("below", .list [.object [("height", .number (.integer 1))], .null]),
  ("height", .number (.integer 2))]

theorem evaluation_of_reordered_trees :
    aTree.Reordered turnedTree ∧ turnedTree ≠ aTree ∧
      trees.equals "Tree" aTree looseTree = trees.equals "Tree" turnedTree looseTree ∧
      trees.order "Tree" aTree looseTree = trees.order "Tree" turnedTree looseTree ∧
      trees.hash .sip "Tree" aTree = trees.hash .sip "Tree" turnedTree := by
  have hmarks : (Json.object [("bark", .text "rough"), ("age", .null)]).Reordered
      (.object [("age", .null), ("bark", .text "rough")]) :=
    .object rfl (.cons (.same _) (.cons (.same _) .nil)) (.swap _ _ _)
  have hturned : aTree.Reordered turnedTree := by
    refine .object ?_ ?_ (List.reverse_perm turnedTree.fields)
    · rfl
    · exact .cons (.same _) (.cons (.same _) (.cons hmarks .nil))
  have hname : "Tree" ∈ trees.names := by decide
  obtain ⟨hequals, horder, hhash⟩ := evaluation_of_reordered closed_trees hname hturned
    (.same looseTree) (by decide) (by decide)
  exact ⟨hturned, by simp [turnedTree, aTree], hequals, horder, hhash .sip LeafHash.lawful_sip⟩

end Registry

end Classwright
