import Classwright.Json.Hash
import Classwright.Proofs.Json.Order

/-!
# Hashes of values without a difference

Values that `Json.order` does not tell apart hash alike (`hash_eq_of_order`). Lists without a
difference agree item by item, and objects without a difference have the same sorted fields. The sum over
an object does not depend on the order of its fields, so the sorted ones stand for all of them.

The hashes of strings, truth values and numbers stay open. All that is asked of them is that numbers of
one value hash alike (`LeafHash.Lawful`), which is a condition because a double has two zeros. The
digest that is used meets it (`lawful_sip`).
-/

namespace Classwright

namespace LeafHash

/-- Numbers of the same value have the same hash. -/
def Lawful (leaf : LeafHash) : Prop :=
  ∀ x y : Binary64, x.order y = .eq → leaf.number x = leaf.number y

/-- Doubles of one value are the same double, or zeros. -/
theorem eq_or_zero_of_order {x y : Binary64} (h : x.order y = .eq) :
    x = y ∨ x.position = 0 ∧ y.position = 0 := by
  have hrank : x.rank = y.rank := Std.LawfulEqOrd.eq_of_compare h
  obtain ⟨sx, px⟩ := x
  obtain ⟨sy, py⟩ := y
  cases sx <;> cases sy <;> simp only [Binary64.rank, Bool.false_eq_true, if_false, if_true] at hrank
  · exact Or.inl (by rw [Int.ofNat_inj.1 hrank])
  · exact Or.inr ⟨by simp only; omega, by simp only; omega⟩
  · exact Or.inr ⟨by simp only; omega, by simp only; omega⟩
  · exact Or.inl (by rw [Int.ofNat_inj.1 (Int.neg_inj.1 hrank)])

/-- The word of a double does not tell the zeros apart. -/
theorem numberWord_eq_of_order {x y : Binary64} (h : x.order y = .eq) :
    numberWord x = numberWord y := by
  rcases eq_or_zero_of_order h with rfl | ⟨hx, hy⟩
  · rfl
  · have hexponent : x.exponentField = y.exponentField := by
      rw [Binary64.exponentField, Binary64.exponentField, hx, hy]
    have hfraction : x.fractionField = y.fractionField := by
      rw [Binary64.fractionField, Binary64.fractionField, hx, hy]
    have hsign (z : Binary64) (hz : z.position = 0) :
        ¬ (z.negative = true ∧ z.position ≠ 0) := fun hs => hs.2 hz
    unfold numberWord
    rw [hexponent, hfraction, if_neg (hsign x hx), if_neg (hsign y hy)]

theorem lawful_sip : sip.Lawful := by
  intro x y h
  show truncated (wordBytes 1 ++ wordBytes (numberWord x)) =
    truncated (wordBytes 1 ++ wordBytes (numberWord y))
  rw [numberWord_eq_of_order h]

end LeafHash

namespace Json

variable {leaf : LeafHash}

theorem hash_list (items : List Json) :
    hash leaf (list items) = (items.map (hash leaf)).foldl foldHash hashSeed := by
  rw [show hash leaf (list items) = hashStep leaf (list items) (walkItems (hashStep leaf) items) []
      from rfl, walkItems_eq_map]
  rfl

/-- The sum over the entries of an object. -/
def hashEntries (leaf : LeafHash) (entries : Fields Int32) : Int32 :=
  entries.foldl (fun sum (key, part) => sum + foldHash (leaf.text key) part) 0

theorem hash_object (fields : List (String × Json)) :
    hash leaf (object fields) = hashEntries leaf (Fields.mapValues (hash leaf) fields) := by
  rw [show hash leaf (object fields) = hashStep leaf (object fields) []
      (walkFields (hashStep leaf) fields) from rfl, walkFields_eq_mapValues]
  rfl

/-- The order of the entries does not matter. -/
theorem hashEntries_perm {xs ys : Fields Int32} (h : xs.Perm ys) :
    hashEntries leaf xs = hashEntries leaf ys := by
  refine h.foldl_eq' (fun x _ y _ sum => ?_) 0
  show sum + foldHash (leaf.text x.1) x.2 + foldHash (leaf.text y.1) y.2 =
    sum + foldHash (leaf.text y.1) y.2 + foldHash (leaf.text x.1) x.2
  rw [Int32.add_assoc, Int32.add_comm (foldHash (leaf.text x.1) x.2), ← Int32.add_assoc]

theorem hash_object_sorted (fields : List (String × Json)) :
    hash leaf (object fields) =
      hashEntries leaf (Fields.mapValues (hash leaf) (Fields.sorted fields)) := by
  rw [hash_object]
  exact hashEntries_perm ((Fields.perm_sorted fields).symm.map _)

/-- **Values without a difference hash alike.** -/
theorem hash_eq_of_order (hleaf : leaf.Lawful) {a b : Json} (h : order a b = .eq) :
    hash leaf a = hash leaf b := by
  have hk := kindRank_eq_of_order h
  induction a generalizing b with
  | null =>
    cases b with
    | null => rfl
    | _ => cases hk
  | bool x =>
    cases b with
    | bool y => rw [Std.LawfulEqOrd.eq_of_compare (show compare x y = .eq from h)]
    | _ => cases hk
  | number x =>
    cases b with
    | number y => exact hleaf _ _ h
    | _ => cases hk
  | text x =>
    cases b with
    | text y => rw [Std.LawfulEqOrd.eq_of_compare (show compare x y = .eq from h)]
    | _ => cases hk
  | list xs ih =>
    cases b with
    | list ys =>
      have hmap : xs.map (hash leaf) = ys.map (hash leaf) :=
        map_eq_of_order_list (fun x hx y hxy => ih x hx hxy (kindRank_eq_of_order hxy)) h
      rw [hash_list, hash_list, hmap]
    | _ => cases hk
  | object xs ih =>
    cases b with
    | object ys =>
      have hmap : Fields.mapValues (hash leaf) (Fields.sorted xs) =
          Fields.mapValues (hash leaf) (Fields.sorted ys) :=
        mapValues_sorted_eq_of_order
          (fun g hg y hxy => ih g hg hxy (kindRank_eq_of_order hxy)) h
      rw [hash_object_sorted, hash_object_sorted, hmap]
    | _ => cases hk

end Json

end Classwright
