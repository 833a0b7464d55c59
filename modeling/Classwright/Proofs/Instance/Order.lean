import Mathlib.Data.List.Zip
import Classwright.Instance.Order
import Classwright.Proofs.Instance.Equality

/-!
# Laws of the order of instances

`Registry.order` is a total preorder on the instances of every class, whatever the registry and
whatever the values: values that do not fit their shapes and classes that do not exist are covered.
Comparing the other way round reverses the result and keeps a fault, and a chain of instances none
of which is above the next is ordered from end to end, without a fault.

The laws follow those of `Json.order`, one level up: results may be faults, so a chain of results
(`ChainOk`) starts from two comparisons that succeed.

The order finds no difference exactly between equal instances. The two walk maps in different ways:
equality looks up the keys of one map in the other, the order goes through both in the order of their
keys. `Fields.Match` is what both of them come to.
-/

namespace Classwright

/-! ## One result after another -/

/-- A result, or the next one where it finds no difference. -/
def thenOk (o : Ordering) (rest : Except InstanceFault Ordering) : Except InstanceFault Ordering :=
  match o with
  | .eq => rest
  | o => .ok o

theorem map_swap_thenOk (o : Ordering) (rest : Except InstanceFault Ordering) :
    (thenOk o rest).map Ordering.swap = thenOk o.swap (rest.map Ordering.swap) := by
  cases o <;> rfl

theorem firstUnequal_cons {α : Type} (test : α → Except InstanceFault Ordering) (x : α)
    (l : List α) :
    firstUnequal test (x :: l) = (test x).bind fun o => thenOk o (firstUnequal test l) := by
  rw [firstUnequal]
  cases test x with
  | error e => rfl
  | ok o => cases o <;> rfl

theorem firstUnequal_map {α β : Type} (test : β → Except InstanceFault Ordering) (f : α → β)
    (l : List α) : firstUnequal test (l.map f) = firstUnequal (fun x => test (f x)) l := by
  induction l with
  | nil => rfl
  | cons x l ih => rw [List.map_cons, firstUnequal, firstUnequal, ih]

/-- Tests that reverse each other find reversed results. -/
theorem firstUnequal_swap {α : Type} {f g : α → Except InstanceFault Ordering} {l : List α}
    (h : ∀ x ∈ l, g x = (f x).map Ordering.swap) :
    firstUnequal g l = (firstUnequal f l).map Ordering.swap := by
  induction l with
  | nil => rfl
  | cons x l ih =>
    rw [firstUnequal_cons, firstUnequal_cons, h x List.mem_cons_self,
      ih fun y hy => h y (List.mem_cons_of_mem _ hy)]
    cases f x with
    | error e => rfl
    | ok o => exact (map_swap_thenOk o _).symm

theorem thenOk_eq_iff {o : Ordering} {rest : Except InstanceFault Ordering} :
    thenOk o rest = .ok .eq ↔ o = .eq ∧ rest = .ok .eq := by
  cases o <;> simp [thenOk]

/-- No difference is found if no test finds one. -/
theorem firstUnequal_eq_iff {α : Type} {test : α → Except InstanceFault Ordering} {l : List α} :
    firstUnequal test l = .ok .eq ↔ ∀ x ∈ l, test x = .ok .eq := by
  induction l with
  | nil => simp [firstUnequal]
  | cons x l ih =>
    rw [firstUnequal_cons, List.forall_mem_cons, ← ih]
    cases test x with
    | error e => simp [Except.bind]
    | ok o => simp [Except.bind, thenOk_eq_iff]

/-! ## Chains of results that may be faults -/

/-- Where the first two comparisons succeed and neither gives `.gt`, the third one succeeds and gives
their first difference. -/
def ChainOk (ab bc ac : Except InstanceFault Ordering) : Prop :=
  ∀ x y, ab = .ok x → bc = .ok y → x ≠ .gt → y ≠ .gt → ac = .ok (x.then y)

theorem ChainOk.of_chain {ab bc ac : Ordering} (h : Chain ab bc ac) :
    ChainOk (.ok ab) (.ok bc) (.ok ac) := by
  rintro _ _ ⟨⟩ ⟨⟩ hab hbc
  rw [h hab hbc]

theorem ChainOk.thenOk {ab bc ac : Ordering} {ab' bc' ac' : Except InstanceFault Ordering}
    (h : Chain ab bc ac) (h' : ab = .eq → bc = .eq → ChainOk ab' bc' ac') :
    ChainOk (thenOk ab ab') (thenOk bc bc') (thenOk ac ac') := by
  intro x y hx hy hxgt hygt
  cases ab with
  | gt => cases hx; exact absurd rfl hxgt
  | lt =>
    cases hx
    have hbc : bc ≠ .gt := by
      rintro rfl
      cases hy
      exact hygt rfl
    rw [h nofun hbc]
    rfl
  | eq =>
    cases bc with
    | gt => cases hy; exact absurd rfl hygt
    | lt =>
      cases hy
      rw [h nofun nofun]
      cases x with
      | gt => exact absurd rfl hxgt
      | lt => rfl
      | eq => rfl
    | eq =>
      rw [h nofun nofun]
      exact h' rfl rfl x y hx hy hxgt hygt

theorem ChainOk.bind {ab bc ac ab' bc' ac' : Except InstanceFault Ordering}
    (h : ChainOk ab bc ac) (h' : ChainOk ab' bc' ac') :
    ChainOk (ab.bind (Classwright.thenOk · ab')) (bc.bind (Classwright.thenOk · bc'))
      (ac.bind (Classwright.thenOk · ac')) := by
  cases ab with
  | error e => exact nofun
  | ok ab =>
    cases bc with
    | error e => exact fun _ _ _ => nofun
    | ok bc =>
      -- a step that goes down leaves nothing to show, so both steps are part of a chain
      intro x y hx hy hxgt hygt
      have hab : ab ≠ .gt := by
        rintro rfl
        cases hx
        exact hxgt rfl
      have hbc : bc ≠ .gt := by
        rintro rfl
        cases hy
        exact hygt rfl
      rw [h ab bc rfl rfl hab hbc]
      exact ChainOk.thenOk (fun _ _ => rfl) (fun _ _ => h') x y hx hy hxgt hygt

theorem firstUnequal_chain {α : Type} {f g h : α → Except InstanceFault Ordering} {l : List α}
    (hl : ∀ x ∈ l, ChainOk (f x) (g x) (h x)) :
    ChainOk (firstUnequal f l) (firstUnequal g l) (firstUnequal h l) := by
  induction l with
  | nil => exact ChainOk.of_chain fun _ _ => rfl
  | cons x l ih =>
    rw [firstUnequal_cons, firstUnequal_cons, firstUnequal_cons]
    exact (hl x List.mem_cons_self).bind (ih fun y hy => hl y (List.mem_cons_of_mem _ hy))

/-- Three lists of one length, compared pairwise item by item. -/
theorem firstUnequal_zip_chain {α : Type} {f : α → α → Except InstanceFault Ordering}
    {xs ys zs : List α} (hf : ∀ x ∈ xs, ∀ y z, ChainOk (f x y) (f y z) (f x z))
    (hxy : xs.length = ys.length) (hyz : ys.length = zs.length) :
    ChainOk (firstUnequal (fun (x, y) => f x y) (xs.zip ys))
      (firstUnequal (fun (y, z) => f y z) (ys.zip zs))
      (firstUnequal (fun (x, z) => f x z) (xs.zip zs)) := by
  induction xs generalizing ys zs with
  | nil =>
    cases ys with
    | nil => exact ChainOk.of_chain fun _ _ => rfl
    | cons y ys => cases hxy
  | cons x xs ih =>
    cases ys with
    | nil => cases hxy
    | cons y ys =>
      cases zs with
      | nil => cases hyz
      | cons z zs =>
        rw [List.zip_cons_cons, List.zip_cons_cons, List.zip_cons_cons, firstUnequal_cons,
          firstUnequal_cons, firstUnequal_cons]
        exact (hf x List.mem_cons_self y z).bind
          (ih (fun w hw => hf w (List.mem_cons_of_mem _ hw)) (Nat.succ.inj hxy)
            (Nat.succ.inj hyz))

namespace Registry

variable (r : Registry)

/-! ## The equations of the order -/

theorem orderValues_eq (a : Json) :
    r.orderValues a = r.orderStep a (a.items.map r.orderValues)
      (Fields.mapValues r.orderValues a.fields) :=
  Json.walk_eq r.orderStep a

/-- Objects of a class are ordered by the first property that differs. -/
theorem orderValues_structural {a b : Json} (ha : a.isNull = false) (hb : b.isNull = false)
    (name : String) (shape : Shape) :
    r.orderValues a (.structural name) shape b = (do
      let c ← r.find name
      firstUnequal (fun p =>
        r.orderValues (a.part p.jsonName) p.evaluated p.shape (b.part p.jsonName))
        c.properties) := by
  have hpart (key : String) : (Fields.get? (Fields.mapValues r.orderValues a.fields) key).getD
      orderNull = r.orderValues (a.part key) := Json.getD_get?_walk r.orderStep a key
  rw [orderValues_eq]
  simp only [orderStep, ha, hb, Bool.false_eq_true, if_false, hpart]

/-- Lists are ordered by length, then by the first item that differs. -/
theorem orderValues_sequence (xs ys : List Json) (inner : Comparison) (shape : Shape) :
    r.orderValues (.list xs) (.sequence inner) shape (.list ys) =
      thenOk (compare xs.length ys.length)
        (firstUnequal (fun (x, y) => r.orderValues x inner shape.element y) (xs.zip ys)) := by
  rw [orderValues_eq]
  simp only [orderStep, Json.isNull, Bool.false_eq_true, if_false, Json.items, List.length_map,
    List.zip_map_left, firstUnequal_map]
  rfl

/-- Maps are ordered by size, then by their sorted keys, then by the first value that differs. -/
theorem orderValues_unordered (xs ys : List (String × Json)) (inner : Comparison) (shape : Shape) :
    r.orderValues (.object xs) (.unordered inner) shape (.object ys) =
      thenOk ((compare xs.length ys.length).then
          (orderKeys (Fields.sorted xs).keys (Fields.sorted ys).keys))
        (firstUnequal (fun (x, y) => r.orderValues x inner shape.element y)
          ((Fields.sorted xs).values.zip (Fields.sorted ys).values)) := by
  rw [orderValues_eq]
  simp only [orderStep, Json.isNull, Bool.false_eq_true, if_false, Json.fields,
    Fields.sorted_mapValues, Fields.keys_mapValues, Fields.values_mapValues, List.zip_map_left,
    firstUnequal_map]
  rw [Fields.mapValues, List.length_map]
  rfl

/-- What no comparison looks into is ordered as a value. -/
theorem orderValues_of_not_opens {a b : Json} {comparison : Comparison}
    (h : comparison.opens a b = false) (shape : Shape) :
    r.orderValues a comparison shape b = .ok (a.order b) := by
  rw [orderValues_eq]
  cases ha : a.isNull with
  | true =>
    cases Json.eq_null_of_isNull ha
    cases b <;> rfl
  | false =>
    cases hb : b.isNull with
    | true =>
      cases Json.eq_null_of_isNull hb
      cases a <;> rfl
    | false =>
      simp only [orderStep, ha, hb, Bool.false_eq_true, if_false]
      split
      · simp [Comparison.opens, ha, hb] at h
      · simp [Comparison.opens] at h
      · simp [Comparison.opens] at h
      · rfl

end Registry

/-! ## Reversal -/

theorem Fields.mem_of_mem_values_sorted {α : Type} {fields : Fields α} {v : α}
    (h : v ∈ (sorted fields).values) : ∃ key, (key, v) ∈ fields := by
  obtain ⟨f, hf, rfl⟩ := List.mem_map.1 h
  exact ⟨f.1, (perm_sorted fields).mem_iff.1 hf⟩

namespace Registry

variable (r : Registry)

/-- **Comparing the other way round reverses the result**, and a fault stays the same. -/
theorem orderValues_swap (a b : Json) (comparison : Comparison) (shape : Shape) :
    r.orderValues b comparison shape a = (r.orderValues a comparison shape b).map Ordering.swap := by
  induction a using Json.ind_parts generalizing b comparison shape with
  | step a items fields parts =>
    -- what is looked into the one way is looked into the other way
    cases ho : comparison.opens a b with
    | false =>
      rw [orderValues_of_not_opens r ho,
        orderValues_of_not_opens r ((comparison.opens_comm a b).trans ho), Json.order_swap a b]
      rfl
    | true =>
      cases comparison with
      | value => cases ho
      | custom comparer => cases ho
      | structural name =>
        obtain ⟨ha, hb⟩ := Comparison.not_null_of_opens ho
        rw [orderValues_structural r ha hb, orderValues_structural r hb ha]
        cases r.find name with
        | error e => rfl
        | ok c => exact firstUnequal_swap fun p _ => parts ha p.jsonName _ _ _
      | sequence inner =>
        obtain ⟨xs, ys, rfl, rfl⟩ := Comparison.lists_of_opens ho
        rw [orderValues_sequence, orderValues_sequence, map_swap_thenOk, ← List.zip_swap xs ys,
          firstUnequal_map]
        have hlen : compare ys.length xs.length = (compare xs.length ys.length).swap :=
          Std.OrientedOrd.eq_swap
        rw [hlen]
        refine congrArg _ (firstUnequal_swap fun q hq => ?_)
        exact items q.1 (List.of_mem_zip hq).1 _ _ _
      | unordered inner =>
        obtain ⟨xs, ys, rfl, rfl⟩ := Comparison.objects_of_opens ho
        rw [orderValues_unordered, orderValues_unordered, map_swap_thenOk, Ordering.swap_then,
          ← List.zip_swap (Fields.sorted xs).values (Fields.sorted ys).values, firstUnequal_map]
        have hlen : compare ys.length xs.length = (compare xs.length ys.length).swap :=
          Std.OrientedOrd.eq_swap
        have hkeys : orderKeys (Fields.sorted ys).keys (Fields.sorted xs).keys =
            (orderKeys (Fields.sorted xs).keys (Fields.sorted ys).keys).swap :=
          @Std.OrientedCmp.eq_swap _ orderKeys _ _ _
        rw [hlen, hkeys]
        refine congrArg _ (firstUnequal_swap fun q hq => ?_)
        obtain ⟨key, hkey⟩ := Fields.mem_of_mem_values_sorted (List.of_mem_zip hq).1
        exact fields _ hkey _ _ _

end Registry

/-! ## Transitivity -/

namespace Comparison

theorem order_of_rank_ne {comparison : Comparison} {a b : Json}
    (h : comparison.rank a ≠ comparison.rank b) :
    a.order b = compare (comparison.rank a) (comparison.rank b) := by
  cases comparison with
  | structural name =>
    -- one of the two is `null`, and `null` comes first
    rw [rank, rank] at h ⊢
    cases a <;> cases b <;> first | rfl | exact absurd rfl h
  | value => exact Json.order_of_kindRank_ne h
  | custom comparer => exact Json.order_of_kindRank_ne h
  | sequence inner => exact Json.order_of_kindRank_ne h
  | unordered inner => exact Json.order_of_kindRank_ne h

end Comparison

namespace Registry

variable (r : Registry)

theorem orderValues_of_rank_ne {comparison : Comparison} {a b : Json}
    (h : comparison.rank a ≠ comparison.rank b) (shape : Shape) :
    r.orderValues a comparison shape b =
      .ok (compare (comparison.rank a) (comparison.rank b)) := by
  have ho : comparison.opens a b = false := by
    cases ho : comparison.opens a b with
    | false => rfl
    | true => exact absurd (Comparison.rank_eq_of_opens ho) h
  rw [orderValues_of_not_opens r ho, Comparison.order_of_rank_ne h]

theorem orderValues_chain_of_rank_ne {comparison : Comparison} {a b c : Json}
    (h : comparison.rank a = comparison.rank b → comparison.rank b ≠ comparison.rank c)
    (shape : Shape) :
    ChainOk (r.orderValues a comparison shape b) (r.orderValues b comparison shape c)
      (r.orderValues a comparison shape c) := by
  intro x y hab hbc hx hy
  have hdecides (a b : Json) (x : Ordering) (hx : r.orderValues a comparison shape b = .ok x)
      (hk : comparison.rank a ≠ comparison.rank b) :
      x = compare (comparison.rank a) (comparison.rank b) := by
    rw [orderValues_of_rank_ne r hk] at hx
    exact (Except.ok.inj hx).symm
  have hlt := rank_lt_of_climb (hdecides a b x hab) (hdecides b c y hbc) h hx hy
  rw [orderValues_of_rank_ne r (Nat.ne_of_lt hlt)]
  exact congrArg _ (Chain.climb (hdecides a b x hab) (hdecides b c y hbc) (fun _ => rfl) h hx hy)

/-- **Chains of values**, by a comparison and a shape. -/
theorem orderValues_chain (a b c : Json) (comparison : Comparison) (shape : Shape) :
    ChainOk (r.orderValues a comparison shape b) (r.orderValues b comparison shape c)
      (r.orderValues a comparison shape c) := by
  induction a using Json.ind_parts generalizing b c comparison shape with
  | step a items fields parts =>
    by_cases hk : comparison.rank a = comparison.rank b ∧ comparison.rank b = comparison.rank c
    -- where the ranks change along the chain they decide
    case neg => exact r.orderValues_chain_of_rank_ne (fun h h' => hk ⟨h, h'⟩) shape
    obtain ⟨hab, hbc⟩ := hk
    -- within one rank either all three pairs are looked into or none is
    have hac : comparison.opens a c = comparison.opens b c := Comparison.opens_congr hab c
    have hba : comparison.opens a b = comparison.opens b c := by
      rw [← Comparison.opens_comm, Comparison.opens_congr hbc, Comparison.opens_comm, hac]
    cases ho : comparison.opens b c with
    | false =>
      rw [orderValues_of_not_opens r (hba.trans ho), orderValues_of_not_opens r ho,
        orderValues_of_not_opens r (hac.trans ho)]
      exact ChainOk.of_chain (Json.order_chain a b c)
    | true =>
      cases comparison with
      | value => cases ho
      | custom comparer => cases ho
      | structural name =>
        obtain ⟨hb, hc⟩ := Comparison.not_null_of_opens ho
        obtain ⟨ha, -⟩ := Comparison.not_null_of_opens (hba.trans ho)
        rw [orderValues_structural r ha hb, orderValues_structural r hb hc,
          orderValues_structural r ha hc]
        cases r.find name with
        | error e => exact nofun
        | ok c => exact firstUnequal_chain fun p _ => parts ha p.jsonName _ _ _ _
      | sequence inner =>
        obtain ⟨xs, ys, rfl, rfl⟩ := Comparison.lists_of_opens (hba.trans ho)
        obtain ⟨_, zs, -, rfl⟩ := Comparison.lists_of_opens ho
        rw [orderValues_sequence, orderValues_sequence, orderValues_sequence]
        refine ChainOk.thenOk (Chain.of_transCmp compare _ _ _) fun hxy hyz => ?_
        exact firstUnequal_zip_chain (fun x hx y z => items x hx y z inner shape.element)
          (Nat.compare_eq_eq.1 hxy) (Nat.compare_eq_eq.1 hyz)
      | unordered inner =>
        obtain ⟨xs, ys, rfl, rfl⟩ := Comparison.objects_of_opens (hba.trans ho)
        obtain ⟨_, zs, -, rfl⟩ := Comparison.objects_of_opens ho
        rw [orderValues_unordered, orderValues_unordered, orderValues_unordered]
        refine ChainOk.thenOk ((Chain.of_transCmp compare _ _ _).then fun _ _ =>
          Chain.of_transCmp orderKeys _ _ _) fun hxy hyz => ?_
        have hchain : ∀ x ∈ (Fields.sorted xs).values, ∀ y z,
            ChainOk (r.orderValues x inner shape.element y) (r.orderValues y inner shape.element z)
              (r.orderValues x inner shape.element z) := by
          intro x hx y z
          obtain ⟨key, hkey⟩ := Fields.mem_of_mem_values_sorted hx
          exact fields _ hkey y z inner shape.element
        apply firstUnequal_zip_chain hchain
        · rw [Fields.length_values_sorted, Fields.length_values_sorted]
          exact Nat.compare_eq_eq.1 (Ordering.then_eq_eq.1 hxy).1
        · rw [Fields.length_values_sorted, Fields.length_values_sorted]
          exact Nat.compare_eq_eq.1 (Ordering.then_eq_eq.1 hyz).1

/-! ## Instances without a difference -/

theorem orderValues_structural_eq {a b : Json} (ha : a.isNull = false) (hb : b.isNull = false)
    {name : String} {shape : Shape} :
    r.orderValues a (.structural name) shape b = .ok .eq ↔
      ∃ c, r.find name = .ok c ∧ ∀ p ∈ c.properties,
        r.orderValues (a.part p.jsonName) p.evaluated p.shape (b.part p.jsonName) = .ok .eq := by
  rw [orderValues_structural r ha hb]
  cases r.find name with
  | error e => exact ⟨nofun, nofun⟩
  | ok c =>
    refine firstUnequal_eq_iff.trans ⟨fun h => ⟨c, rfl, h⟩, ?_⟩
    rintro ⟨_, ⟨⟩, h⟩
    exact h

theorem orderValues_sequence_eq {xs ys : List Json} {inner : Comparison} {shape : Shape} :
    r.orderValues (.list xs) (.sequence inner) shape (.list ys) = .ok .eq ↔
      List.Forall₂ (fun x y => r.orderValues x inner shape.element y = .ok .eq) xs ys := by
  rw [orderValues_sequence, thenOk_eq_iff, Nat.compare_eq_eq, firstUnequal_eq_iff,
    List.forall₂_iff_zip]
  exact ⟨fun h => ⟨h.1, fun hab => h.2 _ hab⟩, fun h => ⟨h.1, fun q hq => h.2 hq⟩⟩

theorem orderValues_unordered_eq {xs ys : List (String × Json)} {inner : Comparison}
    {shape : Shape} :
    r.orderValues (.object xs) (.unordered inner) shape (.object ys) = .ok .eq ↔
      Fields.Match (fun x y => r.orderValues x inner shape.element y = .ok .eq) xs ys := by
  have hkeys : orderKeys (Fields.sorted xs).keys (Fields.sorted ys).keys = .eq ↔
      (Fields.sorted xs).keys = (Fields.sorted ys).keys := Std.LawfulEqCmp.compare_eq_iff_eq
  rw [orderValues_unordered, thenOk_eq_iff, Ordering.then_eq_eq, Nat.compare_eq_eq, hkeys,
    firstUnequal_eq_iff, Fields.match_iff_zip]
  constructor
  · rintro ⟨⟨-, hk⟩, h⟩
    exact ⟨hk, fun q hq => h q hq⟩
  · rintro ⟨hk, h⟩
    exact ⟨⟨Fields.length_eq_of_keys_sorted hk, hk⟩, fun q hq => h q hq⟩

/-- **No difference is equality.** Only a map that repeats a key could tell the two apart. -/
theorem orderValues_eq_iff {a : Json} (ha : a.distinctKeys = true) (b : Json)
    (comparison : Comparison) (shape : Shape) :
    r.orderValues a comparison shape b = .ok .eq ↔
      r.equalValues a comparison shape b = .ok true := by
  induction a using Json.ind_parts generalizing b comparison shape with
  | step a items fields parts =>
    cases ho : comparison.opens a b with
    | false =>
      rw [orderValues_of_not_opens r ho, equalValues_true_of_not_opens r ho]
      simp
    | true =>
      cases comparison with
      | value => cases ho
      | custom comparer => cases ho
      | structural name =>
        obtain ⟨hna, hnb⟩ := Comparison.not_null_of_opens ho
        rw [orderValues_structural_eq r hna hnb, equalValues_structural_true r hna hnb]
        refine exists_congr fun c => and_congr_right fun _ => forall₂_congr fun p _ => ?_
        exact parts hna p.jsonName (Json.distinctKeys_part ha _) _ _ _
      | sequence inner =>
        obtain ⟨xs, ys, rfl, rfl⟩ := Comparison.lists_of_opens ho
        rw [orderValues_sequence_eq, equalValues_sequence_true]
        refine List.forall₂_congr_of_mem fun x hx y => ?_
        exact items x hx (Json.distinctKeys_list.1 ha x hx) _ _ _
      | unordered inner =>
        obtain ⟨xs, ys, rfl, rfl⟩ := Comparison.objects_of_opens ho
        obtain ⟨hd, hxs⟩ := Json.distinctKeys_object.1 ha
        rw [orderValues_unordered_eq, equalValues_unordered_true r hd]
        exact Fields.match_congr fun f hf y => fields f hf (hxs f hf) _ _ _

theorem equalValues_trans {a b c : Json} (ha : a.distinctKeys = true) (hb : b.distinctKeys = true)
    {comparison : Comparison} {shape : Shape}
    (hab : r.equalValues a comparison shape b = .ok true)
    (hbc : r.equalValues b comparison shape c = .ok true) :
    r.equalValues a comparison shape c = .ok true := by
  rw [← r.orderValues_eq_iff ha] at hab ⊢
  rw [← r.orderValues_eq_iff hb] at hbc
  exact r.orderValues_chain a b c comparison shape .eq .eq hab hbc (by decide) (by decide)

/-! ## The order of instances -/

theorem order_eq (className : String) (a b : Json) :
    r.order className a b =
      (r.find className).bind fun _ =>
        r.orderValues a (.structural className) (.ofClass className) b := rfl

/-- **The order of instances is a total preorder.** The other way round the result is reversed, and a
fault is the same fault. If `a` is not above `b` and `b` is not above `c`, then comparing `a` with
`c` succeeds, and `a` is not above `c`. -/
theorem order_totalPreorder (className : String) :
    (∀ a b, r.order className b a = (r.order className a b).map Ordering.swap) ∧
    ∀ a b c x y, r.order className a b = .ok x → r.order className b c = .ok y →
      x ≠ .gt → y ≠ .gt → ∃ z, r.order className a c = .ok z ∧ z ≠ .gt := by
  simp only [order_eq]
  cases r.find className with
  | error e => exact ⟨fun _ _ => rfl, nofun⟩
  | ok c =>
    refine ⟨fun a b => r.orderValues_swap a b _ _, fun a b c x y hab hbc hx hy => ?_⟩
    refine ⟨x.then y, r.orderValues_chain a b c _ _ x y hab hbc hx hy, ?_⟩
    cases x with
    | gt => exact absurd rfl hx
    | lt => nofun
    | eq => exact hy

theorem order_totalPreorder_trees :
    trees.order "Tree" (.object []) aTree = .ok .lt ∧ trees.order "Tree" aTree sameTree = .ok .eq ∧
      ∃ z, trees.order "Tree" (.object []) sameTree = .ok z ∧ z ≠ .gt := by
  have hlt : trees.order "Tree" (.object []) aTree = .ok .lt := by decide
  have heq : trees.order "Tree" aTree sameTree = .ok .eq := by decide
  exact ⟨hlt, heq, (order_totalPreorder trees "Tree").2 _ _ _ _ _ hlt heq nofun nofun⟩

/-- **The order agrees with equality.** Comparing two instances finds no difference exactly if they
are equal: a fault on one side is no equality on the other. Values that are read repeat no key
(`Json.distinctKeys_collapse`). -/
theorem order_eq_iff_equals (className : String) (a b : Json) (ha : a.distinctKeys = true) :
    r.order className a b = .ok .eq ↔ r.equals className a b = .ok true := by
  rw [order_eq, equals_eq]
  cases r.find className with
  | error e => exact ⟨nofun, nofun⟩
  | ok c => exact r.orderValues_eq_iff ha b _ _

theorem order_eq_iff_equals_trees :
    aTree.distinctKeys = true ∧ trees.equals "Tree" aTree sameTree = .ok true ∧
      trees.order "Tree" aTree sameTree = .ok .eq := by
  have hkeys : aTree.distinctKeys = true := by decide
  have hequal : trees.equals "Tree" aTree sameTree = .ok true := by decide
  exact ⟨hkeys, hequal, (order_eq_iff_equals trees "Tree" aTree sameTree hkeys).2 hequal⟩

end Registry

end Classwright
