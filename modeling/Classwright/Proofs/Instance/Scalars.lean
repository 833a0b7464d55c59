import Classwright.Proofs.Instance.Order
import Classwright.Proofs.Number.Rounding
import Classwright.Proofs.Text.CodeUnits

/-!
# Numbers and texts in instances

Which integers and which texts the order of instances tells apart, and in which order. Both are seen in
two instances that differ in a single property.

* **`AgreeOutside`** — instances all of whose properties but one compare equal. That property decides
  (`order_of_agreeOutside`, `equals_of_agreeOutside`).
* **`order_integers_as_doubles`** — integers go by the nearest double, so beyond `2 ^ 53` some of them
  become equal.
* **`orderKeys_insertSorted`** — maps with the same keys but one are ordered by that key.
* **`order_texts_by_code_points`** — texts and keys go by code points, which is not the order of the
  generated code where the first difference is crossed.
-/

namespace Classwright

/-! ## One property decides -/

theorem firstUnequal_of_one {α : Type} {test : α → Except InstanceFault Ordering} {l : List α}
    {o : Ordering} (h : ∀ x ∈ l, test x = .ok .eq ∨ test x = .ok o) (hone : ∃ x ∈ l, test x = .ok o) :
    firstUnequal test l = .ok o := by
  by_cases ho : o = .eq
  · subst ho
    exact firstUnequal_eq_iff.2 fun x hx => (h x hx).elim id id
  induction l with
  | nil => exact absurd hone (by simp)
  | cons x l ih =>
    rw [List.forall_mem_cons] at h
    rw [firstUnequal_cons]
    rcases h.1 with hx | hx
    · obtain ⟨y, hy, hone⟩ := hone
      rw [hx]
      refine ih h.2 ?_
      rcases List.mem_cons.1 hy with rfl | hy
      · rw [hx] at hone
        exact absurd (Except.ok.inj hone).symm ho
      · exact ⟨y, hy, hone⟩
    · rw [hx]
      cases o with
      | eq => exact absurd rfl ho
      | lt => rfl
      | gt => rfl

theorem allM_of_one {α ε : Type} {test : α → Except ε Bool} {l : List α} {b : Bool}
    (h : ∀ x ∈ l, test x = .ok true ∨ test x = .ok b) (hone : ∃ x ∈ l, test x = .ok b) :
    l.allM test = .ok b := by
  cases b with
  | true => exact allM_eq_true_iff.2 fun x hx => (h x hx).elim id id
  | false =>
    induction l with
    | nil => exact absurd hone (by simp)
    | cons x l ih =>
      rw [List.forall_mem_cons] at h
      rcases h.1 with hx | hx
      · obtain ⟨y, hy, hone⟩ := hone
        rw [allM_cons_ok hx]
        refine ih h.2 ?_
        rcases List.mem_cons.1 hy with rfl | hy
        · rw [hx] at hone
          cases hone
        · exact ⟨y, hy, hone⟩
      · rw [allM_cons_ok hx]
        rfl

namespace Registry

variable {r : Registry}

/-- Instances of a class all of whose properties compare equal, but for one. -/
structure AgreeOutside (r : Registry) (c : ClassModel) (p : Property) (a b : Json) : Prop where
  mem : p ∈ c.properties
  order : ∀ q ∈ c.properties, q ≠ p →
    r.orderValues (a.part q.jsonName) q.evaluated q.shape (b.part q.jsonName) = .ok .eq
  equal : ∀ q ∈ c.properties, q ≠ p →
    r.equalValues (a.part q.jsonName) q.evaluated q.shape (b.part q.jsonName) = .ok true

theorem isNull_eq_false_of_part {v : Json} {key : String} (h : (v.part key).isNull = false) :
    v.isNull = false := by
  cases v with
  | null => exact h
  | _ => rfl

variable {c : ClassModel} {p : Property} {className : String} {a b : Json}

theorem order_of_agreeOutside (hc : r.find className = .ok c) (h : AgreeOutside r c p a b)
    (ha : (a.part p.jsonName).isNull = false) (hb : (b.part p.jsonName).isNull = false) {o : Ordering}
    (ho : r.orderValues (a.part p.jsonName) p.evaluated p.shape (b.part p.jsonName) = .ok o) :
    r.order className a b = .ok o := by
  rw [order_eq, hc]
  refine (orderValues_structural r (isNull_eq_false_of_part ha) (isNull_eq_false_of_part hb) _ _).trans ?_
  rw [hc]
  refine firstUnequal_of_one (fun q hq => ?_) ⟨p, h.mem, ho⟩
  by_cases hqp : q = p
  · exact Or.inr (hqp ▸ ho)
  · exact Or.inl (h.order q hq hqp)

theorem equals_of_agreeOutside (hc : r.find className = .ok c) (h : AgreeOutside r c p a b)
    (ha : (a.part p.jsonName).isNull = false) (hb : (b.part p.jsonName).isNull = false) {same : Bool}
    (hsame : r.equalValues (a.part p.jsonName) p.evaluated p.shape (b.part p.jsonName) = .ok same) :
    r.equals className a b = .ok same := by
  rw [equals_eq, hc]
  refine (equalValues_structural r (isNull_eq_false_of_part ha) (isNull_eq_false_of_part hb) _ _).trans ?_
  rw [hc]
  refine allM_of_one (fun q hq => ?_) ⟨p, h.mem, hsame⟩
  by_cases hqp : q = p
  · exact Or.inr (hqp ▸ hsame)
  · exact Or.inl (h.equal q hq hqp)

/-- Instances that have nothing but one property. -/
theorem agreeOutside_singleton (hp : p ∈ c.properties)
    (hnames : ∀ q ∈ c.properties, q.jsonName = p.jsonName → q = p) (v w : Json) :
    AgreeOutside r c p (.object [(p.jsonName, v)]) (.object [(p.jsonName, w)]) := by
  have hpart (u : Json) {q : Property} (hq : q ∈ c.properties) (hqp : q ≠ p) :
      (Json.object [(p.jsonName, u)]).part q.jsonName = .null := by
    have hkey : (q.jsonName == p.jsonName) = false :=
      beq_eq_false_iff_ne.2 fun heq => hqp (hnames q hq heq)
    simp [Json.part, Json.field?, Fields.get?, List.lookup_cons, hkey]
  refine ⟨hp, fun q hq hqp => ?_, fun q hq hqp => ?_⟩
  · rw [hpart v hq hqp, hpart w hq hqp]
    rfl
  · rw [hpart v hq hqp, hpart w hq hqp]
    rfl

/-! ## Integers -/

open Binary64 (nearest IsNearest)

theorem natAbs_lt_of_fits {n : Int} (h : Number.fits n = true) : n.natAbs < 2 ^ 64 := by
  simp only [Number.fits, Bool.and_eq_true, decide_eq_true_eq] at h
  omega

/-- **Integers are compared as the doubles nearest to them.** They are ordered as integers unless the same
double is nearest to both, and then they are equal. So the comparison is that of the integers exactly
for pairs that doubles tell apart, which are all pairs up to `2 ^ 53`. -/
theorem order_integers_as_doubles (hc : r.find className = .ok c) (h : AgreeOutside r c p a b)
    {kind : Primitive} (hshape : p.shape = .scalar kind) (hevaluated : p.evaluated = p.shape.comparison)
    {x y : Int} (hx : Number.fits x = true) (hy : Number.fits y = true)
    (ha : a.part p.jsonName = .number (.integer x)) (hb : b.part p.jsonName = .number (.integer y)) :
    r.order className a b = .ok (if nearest x = nearest y then .eq else compare x y) ∧
    r.equals className a b = .ok (decide (nearest x = nearest y)) ∧
    (r.order className a b = .ok (compare x y) ∧ r.equals className a b = .ok (decide (x = y)) ↔
      (nearest x = nearest y → x = y)) ∧
    (x.natAbs ≤ 2 ^ 53 → y.natAbs ≤ 2 ^ 53 → nearest x = nearest y → x = y) ∧
    IsNearest x (nearest x) ∧ IsNearest y (nearest y) := by
  have hvalue : p.evaluated = .value := by rw [hevaluated, hshape]; rfl
  have hopens : p.evaluated.opens (a.part p.jsonName) (b.part p.jsonName) = false := by rw [hvalue]; rfl
  have hvalues : (a.part p.jsonName).order (b.part p.jsonName) =
      if nearest x = nearest y then .eq else compare x y := by
    rw [ha, hb]
    exact Binary64.order_ofInt (natAbs_lt_of_fits hx) (natAbs_lt_of_fits hy)
  have horder : r.order className a b = .ok (if nearest x = nearest y then .eq else compare x y) := by
    refine order_of_agreeOutside hc h (by rw [ha]; rfl) (by rw [hb]; rfl) ?_
    rw [orderValues_of_not_opens r hopens, hvalues]
  have hequals : r.equals className a b = .ok (decide (nearest x = nearest y)) := by
    refine equals_of_agreeOutside hc h (by rw [ha]; rfl) (by rw [hb]; rfl) ?_
    rw [equalValues_of_not_opens r hopens, hvalues]
    by_cases hsame : nearest x = nearest y
    · rw [if_pos hsame, decide_eq_true hsame]
      rfl
    · have hne : compare x y ≠ .eq := fun heq => hsame (congrArg nearest (Int.compare_eq_eq.1 heq))
      rw [if_neg hsame, decide_eq_false hsame, beq_eq_false_iff_ne.2 hne]
  refine ⟨horder, hequals, ?_, ?_, Binary64.isNearest_nearest x, Binary64.isNearest_nearest y⟩
  · rw [horder, hequals]
    by_cases hsame : nearest x = nearest y
    · rw [if_pos hsame]
      refine ⟨fun hexact _ => Int.compare_eq_eq.1 (Except.ok.inj hexact.1).symm, fun hexact => ?_⟩
      rw [hexact hsame, Int.compare_eq_eq.2 rfl, decide_eq_true rfl, decide_eq_true rfl]
      exact ⟨rfl, rfl⟩
    · have hne : x ≠ y := fun heq => hsame (congrArg nearest heq)
      rw [if_neg hsame, decide_eq_false hsame, decide_eq_false hne]
      exact iff_of_true ⟨rfl, rfl⟩ fun hcontra => absurd hcontra hsame
  · intro hx' hy' hsame
    rwa [Binary64.nearest_of_le hx', Binary64.nearest_of_le hy'] at hsame

/-- Two integers that one double stands for. -/
theorem order_integers_as_doubles_trees :
    trees.order "Tree" (.object [("height", .number (.integer 9007199254740993))])
        (.object [("height", .number (.integer 9007199254740992))]) = .ok .eq ∧
      trees.equals "Tree" (.object [("height", .number (.integer 9007199254740993))])
        (.object [("height", .number (.integer 9007199254740992))]) = .ok true := by
  have hc : trees.find "Tree" = .ok (trees.classes.head (by decide)) := rfl
  have hagree := agreeOutside_singleton (r := trees) (c := trees.classes.head (by decide))
    (p := trees.property "height" "Height" (.scalar .number)) (by decide) (by decide)
    (.number (.integer 9007199254740993)) (.number (.integer 9007199254740992))
  obtain ⟨horder, hequals, -⟩ :=
    order_integers_as_doubles hc hagree rfl rfl (by decide) (by decide) rfl rfl
  rw [if_pos (by decide +kernel)] at horder
  rw [decide_eq_true (by decide +kernel)] at hequals
  exact ⟨horder, hequals⟩

end Registry

/-! ## Texts -/

theorem compare_eq_lt_of_lt {s t : String} (h : s < t) : compare s t = .lt := if_pos h

theorem compare_eq_gt_of_lt {s t : String} (h : t < s) : compare s t = .gt := by
  have hswap : compare s t = (compare t s).swap := Std.OrientedCmp.eq_swap
  rw [hswap, compare_eq_lt_of_lt h]
  rfl

theorem lt_of_lt_of_not_lt {s k t : String} (h : s < k) (h' : ¬ t < k) : s < t :=
  String.not_le.1 fun hle => String.not_lt.2 (String.le_trans (String.not_lt.1 h') hle) h

namespace Fields

variable {α : Type}

/-- **A key decides between maps that have all other keys in common**, wherever it is sorted in. -/
theorem orderKeys_insertSorted (s t : String) (v w : α) (fields : Fields α) :
    orderKeys (insertSorted s v fields).keys (insertSorted t w fields).keys = compare s t := by
  have hself (keys : List String) : List.compareLex compare keys keys = .eq := Std.ReflCmp.compare_self
  induction fields with
  | nil =>
    show List.compareLex compare [s] [t] = _
    rw [List.compareLex_cons_cons, hself, Ordering.then_eq]
  | cons field rest ih =>
    obtain ⟨k, u⟩ := field
    rw [insertSorted, insertSorted, orderKeys]
    by_cases hs : s < k <;> by_cases ht : t < k
    · rw [if_pos hs, if_pos ht]
      show List.compareLex compare (s :: k :: keys rest) (t :: k :: keys rest) = _
      rw [List.compareLex_cons_cons, hself, Ordering.then_eq]
    · simp only [if_pos hs, if_neg ht, keys_cons, List.compareLex_cons_cons, compare_eq_lt_of_lt hs,
        compare_eq_lt_of_lt (lt_of_lt_of_not_lt hs ht), Ordering.lt_then]
    · simp only [if_neg hs, if_pos ht, keys_cons, List.compareLex_cons_cons, compare_eq_gt_of_lt ht,
        compare_eq_gt_of_lt (lt_of_lt_of_not_lt ht hs), Ordering.gt_then]
    · have hk : compare k k = .eq := Std.ReflCmp.compare_self
      simp only [if_neg hs, if_neg ht, keys_cons, List.compareLex_cons_cons, hk, Ordering.eq_then]
      exact ih

theorem sorted_append_singleton (fields : Fields α) (key : String) (v : α) :
    sorted (fields ++ [(key, v)]) = insertSorted key v (sorted fields) := by
  rw [sorted, List.foldl_append]
  rfl

/-- The keys of a map with one key more than those of a list. -/
theorem keys_sorted_eq_insertSorted {xs : Fields α} {key : String} {keys : List String}
    (h : (Fields.keys xs).Perm (key :: keys)) :
    (sorted xs).keys = (insertSorted key () (sorted (keys.map fun k => (k, ())))).keys := by
  rw [← sorted_append_singleton]
  refine keys_sorted_eq_of_perm (h.trans ?_)
  have hkeys : Fields.keys (keys.map (fun k => (k, ())) ++ [(key, ())]) = keys ++ [key] := by
    simp [Fields.keys, Function.comp_def]
  rw [hkeys]
  exact (List.perm_append_singleton key keys).symm

end Fields

namespace Registry

variable {r : Registry} {c : ClassModel} {p : Property} {className : String} {a b : Json}

/-- Two texts that a property compares: as its values, or as the only keys that its maps do not have in
common. -/
inductive ComparesTexts (p : Property) (s t : String) : Json → Json → Prop where
  | values {kind : Primitive} (hshape : p.shape = .scalar kind) : ComparesTexts p s t (.text s) (.text t)
  | keys {element : Shape} {xs ys : List (String × Json)} {keys : List String}
      (hshape : p.shape = .map element) (hxs : (Fields.keys xs).Perm (s :: keys))
      (hys : (Fields.keys ys).Perm (t :: keys)) (hne : s ≠ t) :
      ComparesTexts p s t (.object xs) (.object ys)

theorem orderValues_of_comparesTexts (hevaluated : p.evaluated = p.shape.comparison) {s t : String}
    {u v : Json} (h : ComparesTexts p s t u v) :
    r.orderValues u p.evaluated p.shape v = .ok (compare s t) := by
  cases h with
  | values hshape =>
    have hvalue : p.evaluated = .value := by rw [hevaluated, hshape]; rfl
    rw [hvalue, orderValues_of_not_opens r rfl]
    rfl
  | @keys element xs ys keys hshape hxs hys hne =>
    have hlength (fields : List (String × Json)) : fields.length = (Fields.keys fields).length :=
      (List.length_map _).symm
    have hsize : compare xs.length ys.length = .eq := by
      rw [hlength, hlength, hxs.length_eq, hys.length_eq]
      exact Nat.compare_eq_eq.2 rfl
    have hkey : compare s t ≠ .eq := fun heq => hne (Std.LawfulEqCmp.eq_of_compare heq)
    rw [hevaluated, hshape, Shape.comparison, orderValues_unordered, hsize, Ordering.eq_then,
      Fields.keys_sorted_eq_insertSorted hxs, Fields.keys_sorted_eq_insertSorted hys,
      Fields.orderKeys_insertSorted]
    cases h : compare s t with
    | eq => exact absurd h hkey
    | lt => rfl
    | gt => rfl

/-- **Texts are compared by code points**, as values and as keys. That is the order by code units, which the
generated code goes by, exactly if the first difference is not crossed; where it is, one order is the other
reversed. -/
theorem order_texts_by_code_points (hc : r.find className = .ok c) (h : AgreeOutside r c p a b)
    (hevaluated : p.evaluated = p.shape.comparison) {s t : String}
    (htexts : ComparesTexts p s t (a.part p.jsonName) (b.part p.jsonName)) :
    r.order className a b = .ok (List.compareLex compare s.toList t.toList) ∧
    (r.order className a b = .ok (Text.ordinal s t) ↔ ¬ Text.FirstCrossed s.toList t.toList) ∧
    (Text.FirstCrossed s.toList t.toList → r.order className a b = .ok (Text.ordinal s t).swap) := by
  have hnull : (a.part p.jsonName).isNull = false ∧ (b.part p.jsonName).isNull = false := by
    generalize a.part p.jsonName = u, b.part p.jsonName = v at htexts
    cases htexts <;> exact ⟨rfl, rfl⟩
  rw [order_of_agreeOutside hc h hnull.1 hnull.2 (orderValues_of_comparesTexts hevaluated htexts),
    Except.ok.injEq, Except.ok.injEq, Except.ok.injEq]
  refine ⟨Text.compare_text s t, ?_, fun hcrossed => ?_⟩
  · rw [eq_comm]
    exact Text.ordinal_eq_compare_iff s t
  · rcases Text.ordinal_eq s t with ⟨-, hreversed⟩ | ⟨hnot, -⟩
    · rw [hreversed, Ordering.swap_swap]
    · exact absurd hcrossed hnot

/-- A full-width tilde comes before a smiling face by code points, and after it by code units. -/
theorem order_texts_by_code_points_trees :
    trees.order "Tree" (.object [("marks", .object [("～", .null)])])
        (.object [("marks", .object [("😀", .null)])]) = .ok .lt ∧ Text.ordinal "～" "😀" = .gt := by
  have hc : trees.find "Tree" = .ok (trees.classes.head (by decide)) := rfl
  have hagree := agreeOutside_singleton (r := trees) (c := trees.classes.head (by decide))
    (p := trees.property "marks" "Marks" (.map (.scalar .string))) (by decide) (by decide)
    (.object [("～", .null)]) (.object [("😀", .null)])
  have hcrossed : Text.FirstCrossed "～".toList "😀".toList :=
    ⟨[], '～', '😀', [], [], rfl, rfl, Or.inr (by decide)⟩
  have hordinal : Text.ordinal "～" "😀" = .gt := by decide
  have htexts : ComparesTexts (trees.property "marks" "Marks" (.map (.scalar .string))) "～" "😀"
      (.object [("～", .null)]) (.object [("😀", .null)]) :=
    .keys rfl (List.Perm.refl ["～"]) (List.Perm.refl ["😀"]) (by decide)
  obtain ⟨-, -, hreversed⟩ := order_texts_by_code_points hc hagree rfl htexts
  rw [hordinal] at hreversed
  exact ⟨hreversed hcrossed, hordinal⟩

end Registry

end Classwright
