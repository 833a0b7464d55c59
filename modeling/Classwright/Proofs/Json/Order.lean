import Mathlib.Data.List.Forall2
import Mathlib.Data.List.Perm.Subperm
import Classwright.Json.Order
import Classwright.Proofs.Json.Induction

/-!
# Laws of the order of values

`Json.order` is a total preorder: comparing the other way round reverses the result
(`order_swap`), and a chain of values none of which is above the next is ordered from end to end
(`order_chain`).

## The architecture

* **`Chain`** — the shape in which transitivity is carried. For the three results of comparing
  `a` with `b`, `b` with `c` and `a` with `c` it says that the third is the first *then* the second.
  Plain transitivity does not survive a lexicographic order by itself; `Chain` does (`Chain.then`).
* **`Fields.sorted`** — a permutation of the fields (`perm_sorted`) that does not look at the
  values (`sorted_mapValues`), so a walk may sort before or after it descends.
* **`order_list`, `order_object`** — one equation for each kind of value that holds others. No
  later proof opens the walk.
* **`kindRank`** — values of different kinds are ordered by kind, so a chain either stays within
  one kind or climbs.
-/

/-! ## Lists that match place by place -/

namespace List

variable {α β : Type} {R S : α → β → Prop} {xs : List α} {ys : List β}

theorem Forall₂.exists_of_mem (h : Forall₂ R xs ys) {x : α} (hx : x ∈ xs) : ∃ y ∈ ys, R x y := by
  induction h with
  | nil => cases hx
  | cons hab _ ih =>
    rcases mem_cons.1 hx with rfl | hx
    · exact ⟨_, mem_cons_self, hab⟩
    · obtain ⟨y, hy, hxy⟩ := ih hx
      exact ⟨y, mem_cons_of_mem _ hy, hxy⟩

theorem Forall₂.imp_of_mem (h : ∀ x ∈ xs, ∀ y, R x y → S x y) (hr : Forall₂ R xs ys) :
    Forall₂ S xs ys := by
  rw [forall₂_iff_zip] at hr ⊢
  exact ⟨hr.1, fun hxy => h _ (of_mem_zip hxy).1 _ (hr.2 hxy)⟩

theorem forall₂_congr_of_mem (h : ∀ x ∈ xs, ∀ y, R x y ↔ S x y) :
    Forall₂ R xs ys ↔ Forall₂ S xs ys :=
  ⟨.imp_of_mem fun x hx y => (h x hx y).1, .imp_of_mem fun x hx y => (h x hx y).2⟩

end List

namespace Classwright

/-! ## Chains of results -/

/-- The results of comparing `a` with `b`, `b` with `c`, and `a` with `c`, where neither of the
first two is `.gt`: the third is the first difference of the first two. -/
def Chain (ab bc ac : Ordering) : Prop := ab ≠ .gt → bc ≠ .gt → ac = ab.then bc

/-- Chains are kept by comparing in two ways, one after the other. The second way only has to give
a chain where the first one finds no difference. -/
theorem Chain.then {ab bc ac ab' bc' ac' : Ordering} (h : Chain ab bc ac)
    (h' : ab = .eq → bc = .eq → Chain ab' bc' ac') :
    Chain (ab.then ab') (bc.then bc') (ac.then ac') := by
  intro hab hbc
  cases ab with
  | gt => exact absurd rfl hab
  | lt =>
    rw [h nofun (by rintro rfl; exact hbc rfl)]
    rfl
  | eq =>
    cases bc with
    | gt => exact absurd rfl hbc
    | lt =>
      rw [h nofun nofun]
      cases ab' with
      | gt => exact absurd rfl hab
      | lt => rfl
      | eq => rfl
    | eq =>
      rw [h nofun nofun]
      exact h' rfl rfl hab hbc

/-- A transitive comparison gives chains. -/
theorem Chain.of_transCmp {α : Type} (cmp : α → α → Ordering) [Std.TransCmp cmp] (a b c : α) :
    Chain (cmp a b) (cmp b c) (cmp a c) := by
  intro hab hbc
  cases h : cmp a b with
  | lt => exact Std.TransCmp.lt_of_lt_of_isLE h (by cases h' : cmp b c <;> simp_all)
  | eq => exact Std.TransCmp.congr_left h
  | gt => exact absurd h hab

/-- Two steps that do not go down and do not stay within one rank climb, where ranks decide. -/
theorem rank_lt_of_climb {ra rb rc : Nat} {ab bc : Ordering} (hab : ra ≠ rb → ab = compare ra rb)
    (hbc : rb ≠ rc → bc = compare rb rc) (h : ra = rb → rb ≠ rc) (hx : ab ≠ .gt) (hy : bc ≠ .gt) :
    ra < rc := by
  have hle₁ : ra ≤ rb := by
    by_cases hk : ra = rb
    · exact Nat.le_of_eq hk
    · exact Nat.compare_ne_gt.1 (hab hk ▸ hx)
  have hle₂ : rb ≤ rc := by
    by_cases hk : rb = rc
    · exact Nat.le_of_eq hk
    · exact Nat.compare_ne_gt.1 (hbc hk ▸ hy)
  by_cases hk : ra = rb
  · have := h hk
    omega
  · omega

/-- A chain that climbs: one of the two steps goes to a higher rank, and the other one does not go
back. -/
theorem Chain.climb {ra rb rc : Nat} {ab bc ac : Ordering} (hab : ra ≠ rb → ab = compare ra rb)
    (hbc : rb ≠ rc → bc = compare rb rc) (hac : ra ≠ rc → ac = compare ra rc)
    (h : ra = rb → rb ≠ rc) : Chain ab bc ac := by
  intro hx hy
  have hlt := rank_lt_of_climb hab hbc h hx hy
  rw [hac (Nat.ne_of_lt hlt), Nat.compare_eq_lt.2 hlt]
  by_cases hk : ra = rb
  · rw [hbc (h hk), ← hk, Nat.compare_eq_lt.2 hlt]
    cases ab with
    | gt => exact absurd rfl hx
    | lt => rfl
    | eq => rfl
  · rw [hab hk, Nat.compare_eq_lt.2 (Nat.lt_of_le_of_ne (Nat.compare_ne_gt.1 (hab hk ▸ hx)) hk)]
    rfl

/-! ## Sorted fields -/

namespace Fields

variable {α β : Type}

theorem perm_insertSorted (key : String) (v : α) (fields : Fields α) :
    (insertSorted key v fields).Perm ((key, v) :: fields) := by
  induction fields with
  | nil => exact List.Perm.refl _
  | cons field rest ih =>
    rw [insertSorted]
    split
    · exact List.Perm.refl _
    · exact (ih.cons field).trans (List.Perm.swap _ _ _)

/-- Sorting keeps the fields. -/
theorem perm_sorted (fields : Fields α) : (sorted fields).Perm fields := by
  -- the fold moves one field after the other from the list into the sorted part
  suffices h : ∀ done : Fields α,
      (fields.foldl (fun done (f : String × α) => insertSorted f.1 f.2 done) done).Perm
        (done ++ fields) from h []
  induction fields with
  | nil => exact fun done => by simp
  | cons field rest ih =>
    intro done
    exact (ih _).trans (((perm_insertSorted _ _ done).append_right rest).trans
      List.perm_middle.symm)

theorem insertSorted_mapValues (f : α → β) (key : String) (v : α) (fields : Fields α) :
    insertSorted key (f v) (mapValues f fields) = mapValues f (insertSorted key v fields) := by
  induction fields with
  | nil => rfl
  | cons field rest ih =>
    rw [mapValues_cons, insertSorted, insertSorted]
    split
    · rfl
    · rw [mapValues_cons, ih]

/-- Sorting looks at the keys only. -/
theorem sorted_mapValues (f : α → β) (fields : Fields α) :
    sorted (mapValues f fields) = mapValues f (sorted fields) := by
  suffices h : ∀ done : Fields α,
      (mapValues f fields).foldl (fun done (g : String × β) => insertSorted g.1 g.2 done)
        (mapValues f done) =
      mapValues f (fields.foldl (fun done (g : String × α) => insertSorted g.1 g.2 done) done) from
    h []
  induction fields with
  | nil => exact fun done => rfl
  | cons field rest ih =>
    intro done
    simp only [mapValues_cons, List.foldl_cons, insertSorted_mapValues, ih]

theorem values_mapValues (f : α → β) (fields : Fields α) :
    values (mapValues f fields) = (values fields).map f := by
  simp [values, mapValues]

theorem length_values_sorted (fields : Fields α) :
    (sorted fields).values.length = fields.length := by
  rw [values, List.length_map, (perm_sorted fields).length_eq]

/-- Fields are their keys and their values. -/
theorem ext_keys_values {xs ys : Fields α} (hk : xs.keys = ys.keys) (hv : xs.values = ys.values) :
    xs = ys := by
  induction xs generalizing ys with
  | nil =>
    cases ys with
    | nil => rfl
    | cons y ys => cases hk
  | cons x xs ih =>
    cases ys with
    | nil => cases hk
    | cons y ys =>
      rw [keys_cons, keys_cons, List.cons.injEq] at hk
      rw [values, values, List.map_cons, List.map_cons, List.cons.injEq] at hv
      rw [ih hk.2 hv.2, Prod.ext hk.1 hv.1]

theorem keys_sorted_perm (fields : Fields α) : (sorted fields).keys.Perm fields.keys :=
  (perm_sorted fields).map Prod.fst

theorem keys_insertSorted_pairwise (key : String) (v : α) {fields : Fields α}
    (h : fields.keys.Pairwise (· ≤ ·)) : (insertSorted key v fields).keys.Pairwise (· ≤ ·) := by
  induction fields with
  | nil => exact List.pairwise_singleton _ _
  | cons field rest ih =>
    rw [keys_cons, List.pairwise_cons] at h
    rw [insertSorted]
    split
    · next hlt =>
      have hle : key ≤ field.1 := String.not_lt.1 (String.lt_asymm hlt)
      refine List.pairwise_cons.2 ⟨fun k hk => ?_, List.pairwise_cons.2 h⟩
      rcases List.mem_cons.1 hk with rfl | hk
      · exact hle
      · exact String.le_trans hle (h.1 k hk)
    · next hlt =>
      refine List.pairwise_cons.2 ⟨fun k hk => ?_, ih h.2⟩
      have hk' : k ∈ key :: keys rest := ((perm_insertSorted key v rest).map Prod.fst).mem_iff.1 hk
      rcases List.mem_cons.1 hk' with rfl | hk'
      · exact String.not_lt.1 hlt
      · exact h.1 k hk'

/-- Sorted fields are in the order of their keys. -/
theorem keys_sorted_pairwise (fields : Fields α) : (sorted fields).keys.Pairwise (· ≤ ·) := by
  suffices h : ∀ done : Fields α, done.keys.Pairwise (· ≤ ·) →
      (fields.foldl (fun done (f : String × α) => insertSorted f.1 f.2 done) done).keys.Pairwise
        (· ≤ ·) from h [] List.Pairwise.nil
  induction fields with
  | nil => exact fun done hd => hd
  | cons field rest ih => exact fun done hd => ih _ (keys_insertSorted_pairwise _ _ hd)

/-- Sorting decides the order of the keys: the same keys come out in the same places. -/
theorem keys_sorted_eq_of_perm {xs : Fields α} {ys : Fields β} (h : xs.keys.Perm ys.keys) :
    (sorted xs).keys = (sorted ys).keys := by
  refine List.Perm.eq_of_pairwise (fun a b _ _ hab hba => String.le_antisymm hab hba)
    (keys_sorted_pairwise xs) (keys_sorted_pairwise ys) ?_
  exact (keys_sorted_perm xs).trans (h.trans (keys_sorted_perm ys).symm)

/-- Fields with the same keys in the same places, and values that are related wherever keys are
equal. -/
theorem forall₂_of_keys_eq {P : α → β → Prop} {xs : Fields α} {ys : Fields β}
    (hk : xs.keys = ys.keys) (h : ∀ f ∈ xs, ∀ g ∈ ys, f.1 = g.1 → P f.2 g.2) :
    List.Forall₂ (fun f g => f.1 = g.1 ∧ P f.2 g.2) xs ys := by
  induction xs generalizing ys with
  | nil =>
    cases ys with
    | nil => exact .nil
    | cons y ys => cases hk
  | cons x xs ih =>
    cases ys with
    | nil => cases hk
    | cons y ys =>
      rw [keys_cons, keys_cons, List.cons.injEq] at hk
      refine .cons ⟨hk.1, h x List.mem_cons_self y List.mem_cons_self hk.1⟩ (ih hk.2 ?_)
      exact fun f hf g hg => h f (List.mem_cons_of_mem _ hf) g (List.mem_cons_of_mem _ hg)

theorem keys_eq_of_forall₂ {P : α → β → Prop} {xs : Fields α} {ys : Fields β}
    (h : List.Forall₂ (fun f g => f.1 = g.1 ∧ P f.2 g.2) xs ys) : xs.keys = ys.keys := by
  induction h with
  | nil => rfl
  | cons hfg _ ih => rw [keys_cons, keys_cons, hfg.1, ih]

/-- Whether fields match place by place once they are sorted: the same keys, with related values. -/
def Match (P : α → β → Prop) (xs : Fields α) (ys : Fields β) : Prop :=
  List.Forall₂ (fun f g => f.1 = g.1 ∧ P f.2 g.2) (sorted xs) (sorted ys)

theorem match_congr {P Q : α → β → Prop} {xs : Fields α} {ys : Fields β}
    (h : ∀ f ∈ xs, ∀ y, P f.2 y ↔ Q f.2 y) : Match P xs ys ↔ Match Q xs ys :=
  List.forall₂_congr_of_mem fun f hf g =>
    and_congr_right fun _ => h f ((perm_sorted xs).mem_iff.1 hf) g.2

theorem length_eq_of_keys_sorted {xs : Fields α} {ys : Fields β}
    (h : (sorted xs).keys = (sorted ys).keys) : xs.length = ys.length := by
  have hlen := congrArg List.length h
  rwa [keys, keys, List.length_map, List.length_map, (perm_sorted xs).length_eq,
    (perm_sorted ys).length_eq] at hlen

/-- Fields match if their sorted keys are the same and the values at the same places are related. -/
theorem match_iff_zip {P : α → β → Prop} {xs : Fields α} {ys : Fields β} :
    Match P xs ys ↔ (sorted xs).keys = (sorted ys).keys ∧
      ∀ q ∈ (sorted xs).values.zip (sorted ys).values, P q.1 q.2 := by
  unfold Match
  generalize sorted xs = xs, sorted ys = ys
  induction xs generalizing ys with
  | nil =>
    cases ys with
    | nil => simp [values]
    | cons y ys => simp
  | cons x xs ih =>
    cases ys with
    | nil => simp
    | cons y ys =>
      rw [List.forall₂_cons, ih, keys_cons, keys_cons, List.cons.injEq]
      simp only [values, List.map_cons, List.zip_cons_cons, List.forall_mem_cons]
      exact ⟨fun h => ⟨⟨h.1.1, h.2.1⟩, h.1.2, h.2.2⟩, fun h => ⟨⟨h.1.1, h.2.1⟩, h.1.2, h.2.2⟩⟩

/-- **Lookup and sorting agree.** Where no key occurs twice, fields match exactly if there are
equally many and every key leads to a related value. -/
theorem match_iff {P : α → β → Prop} {xs : Fields α} {ys : Fields β} (hd : xs.keys.Nodup) :
    Match P xs ys ↔
      xs.length = ys.length ∧ ∀ f ∈ xs, ∃ y, get? ys f.1 = some y ∧ P f.2 y := by
  constructor
  · intro h
    have hkeys : (sorted ys).keys.Nodup := by
      rw [← keys_eq_of_forall₂ h]
      exact (keys_sorted_perm xs).nodup_iff.2 hd
    have hd' : ys.keys.Nodup := (keys_sorted_perm ys).nodup_iff.1 hkeys
    refine ⟨?_, fun f hf => ?_⟩
    · rw [← (perm_sorted xs).length_eq, ← (perm_sorted ys).length_eq]
      exact h.length_eq
    · obtain ⟨g, hg, hfg⟩ := h.exists_of_mem ((perm_sorted xs).mem_iff.2 hf)
      refine ⟨g.2, get?_of_mem hd' ?_, hfg.2⟩
      rw [hfg.1]
      exact (perm_sorted ys).mem_iff.1 hg
  · rintro ⟨hlen, h⟩
    have hsub : xs.keys ⊆ ys.keys := by
      intro k hk
      obtain ⟨f, hf, rfl⟩ := List.mem_map.1 hk
      obtain ⟨y, hy, -⟩ := h f hf
      exact List.mem_map.2 ⟨_, mem_of_get? hy, rfl⟩
    -- as many keys, all of them different and all of them there: the keys are the same
    have hperm : xs.keys.Perm ys.keys := by
      refine (hd.subperm hsub).perm_of_length_le (Nat.le_of_eq ?_)
      rw [keys, keys, List.length_map, List.length_map, hlen]
    have hd' : ys.keys.Nodup := hperm.nodup_iff.1 hd
    refine forall₂_of_keys_eq (keys_sorted_eq_of_perm hperm) fun f hf g hg hfg => ?_
    obtain ⟨y, hy, hP⟩ := h f ((perm_sorted xs).mem_iff.1 hf)
    rw [hfg, get?_of_mem hd' ((perm_sorted ys).mem_iff.1 hg)] at hy
    cases hy
    exact hP

end Fields

instance : Std.TransCmp orderKeys := inferInstanceAs (Std.TransCmp (List.compareLex compare))

instance : Std.LawfulEqCmp orderKeys :=
  inferInstanceAs (Std.LawfulEqCmp (List.compareLex compare))

namespace Json

/-! ## The equations of the order -/

theorem order_list (xs ys : List Json) :
    order (list xs) (list ys) =
      (compare xs.length ys.length).then (firstDifference (xs.map order) ys) := by
  rw [show order (list xs) = orderStep (list xs) (walkItems orderStep xs) [] from rfl,
    walkItems_eq_map]
  simp [orderStep, order]

theorem order_object (xs ys : List (String × Json)) :
    order (object xs) (object ys) =
      (compare xs.length ys.length).then
        ((orderKeys (Fields.sorted xs).keys (Fields.sorted ys).keys).then
          (firstDifference ((Fields.sorted xs).values.map order) (Fields.sorted ys).values)) := by
  rw [show order (object xs) = orderStep (object xs) [] (walkFields orderStep xs) from rfl,
    walkFields_eq_mapValues]
  simp only [orderStep, Fields.sorted_mapValues, Fields.keys_mapValues, Fields.values_mapValues]
  rw [Fields.mapValues, List.length_map]
  rfl

theorem isNull_eq_of_kindRank {a b : Json} (h : a.kindRank = b.kindRank) : a.isNull = b.isNull := by
  have hrank (v : Json) : v.isNull = (v.kindRank == 0) := by cases v <;> rfl
  rw [hrank, hrank, h]

/-- Values of different kinds are ordered by kind. -/
theorem order_of_kindRank_ne {a b : Json} (h : a.kindRank ≠ b.kindRank) :
    order a b = compare a.kindRank b.kindRank := by
  cases a <;> cases b <;> first | rfl | exact absurd rfl h

/-! ## Reversal -/

theorem firstDifference_swap {xs : List Json}
    (ih : ∀ x ∈ xs, ∀ y, order y x = (order x y).swap) (ys : List Json) :
    firstDifference (ys.map order) xs = (firstDifference (xs.map order) ys).swap := by
  induction xs generalizing ys with
  | nil => cases ys <;> rfl
  | cons x xs ihx =>
    cases ys with
    | nil => rfl
    | cons y ys =>
      rw [List.map_cons, List.map_cons, firstDifference, firstDifference, Ordering.swap_then,
        ih x List.mem_cons_self y,
        ihx (fun z hz => ih z (List.mem_cons_of_mem _ hz)) ys]

theorem order_swap_of_kindRank_ne {a b : Json} (h : a.kindRank ≠ b.kindRank) :
    order b a = (order a b).swap := by
  rw [order_of_kindRank_ne h, order_of_kindRank_ne (Ne.symm h)]
  exact Std.OrientedOrd.eq_swap

/-- **Comparing the other way round reverses the result.** -/
theorem order_swap (a b : Json) : order b a = (order a b).swap := by
  induction a generalizing b with
  | null =>
    cases b with
    | null => rfl
    | _ => exact order_swap_of_kindRank_ne (by simp [kindRank])
  | bool x =>
    cases b with
    | bool y => exact Std.OrientedOrd.eq_swap
    | _ => exact order_swap_of_kindRank_ne (by simp [kindRank])
  | number x =>
    cases b with
    | number y => exact Std.OrientedOrd.eq_swap
    | _ => exact order_swap_of_kindRank_ne (by simp [kindRank])
  | text x =>
    cases b with
    | text y => exact Std.OrientedOrd.eq_swap
    | _ => exact order_swap_of_kindRank_ne (by simp [kindRank])
  | list xs ih =>
    cases b with
    | list ys =>
      rw [order_list, order_list, Ordering.swap_then, firstDifference_swap ih]
      exact congrArg (Ordering.then · _) Std.OrientedOrd.eq_swap
    | _ => exact order_swap_of_kindRank_ne (by simp [kindRank])
  | object xs ih =>
    cases b with
    | object ys =>
      have ih' : ∀ x ∈ (Fields.sorted xs).values, ∀ y, order y x = (order x y).swap := by
        intro x hx
        obtain ⟨f, hf, rfl⟩ := List.mem_map.1 hx
        exact ih f ((Fields.perm_sorted xs).mem_iff.1 hf)
      rw [order_object, order_object, Ordering.swap_then, Ordering.swap_then,
        firstDifference_swap ih']
      have hlen : compare ys.length xs.length = (compare xs.length ys.length).swap :=
        Std.OrientedOrd.eq_swap
      have hkeys : orderKeys (Fields.sorted ys).keys (Fields.sorted xs).keys =
          (orderKeys (Fields.sorted xs).keys (Fields.sorted ys).keys).swap :=
        @Std.OrientedCmp.eq_swap _ orderKeys _ _ _
      rw [hlen, hkeys]
    | _ => exact order_swap_of_kindRank_ne (by simp [kindRank])

/-! ## Transitivity -/

theorem order_self (a : Json) : order a a = .eq := by
  have h := order_swap a a
  cases ho : order a a with
  | eq => rfl
  | lt => rw [ho] at h; cases h
  | gt => rw [ho] at h; cases h

theorem firstDifference_chain {xs : List Json}
    (ih : ∀ x ∈ xs, ∀ y z, Chain (order x y) (order y z) (order x z)) {ys zs : List Json}
    (hxy : xs.length = ys.length) (hyz : ys.length = zs.length) :
    Chain (firstDifference (xs.map order) ys) (firstDifference (ys.map order) zs)
      (firstDifference (xs.map order) zs) := by
  induction xs generalizing ys zs with
  | nil =>
    cases ys with
    | nil => exact fun _ _ => rfl
    | cons y ys => cases hxy
  | cons x xs ihx =>
    cases ys with
    | nil => cases hxy
    | cons y ys =>
      cases zs with
      | nil => cases hyz
      | cons z zs =>
        exact (ih x List.mem_cons_self y z).then fun _ _ =>
          ihx (fun v hv => ih v (List.mem_cons_of_mem _ hv)) (Nat.succ.inj hxy) (Nat.succ.inj hyz)

theorem order_chain_of_kindRank_ne {a b c : Json}
    (h : a.kindRank = b.kindRank → b.kindRank ≠ c.kindRank) :
    Chain (order a b) (order b c) (order a c) :=
  Chain.climb order_of_kindRank_ne order_of_kindRank_ne order_of_kindRank_ne h

/-- **Chains of values.** If `a` is not above `b` and `b` is not above `c`, the order of `a` and `c` is
the first difference on the way. -/
theorem order_chain (a b c : Json) : Chain (order a b) (order b c) (order a c) := by
  induction a generalizing b c with
  | null =>
    cases b with
    | null =>
      cases c with
      | null => exact fun _ _ => rfl
      | _ => exact order_chain_of_kindRank_ne (by simp [kindRank])
    | _ => exact order_chain_of_kindRank_ne (by simp [kindRank])
  | bool x =>
    cases b with
    | bool y =>
      cases c with
      | bool z => exact Chain.of_transCmp compare x y z
      | _ => exact order_chain_of_kindRank_ne (by simp [kindRank])
    | _ => exact order_chain_of_kindRank_ne (by simp [kindRank])
  | number x =>
    cases b with
    | number y =>
      cases c with
      | number z =>
        exact Chain.of_transCmp compare x.toBinary64.rank y.toBinary64.rank z.toBinary64.rank
      | _ => exact order_chain_of_kindRank_ne (by simp [kindRank])
    | _ => exact order_chain_of_kindRank_ne (by simp [kindRank])
  | text x =>
    cases b with
    | text y =>
      cases c with
      | text z => exact Chain.of_transCmp compare x y z
      | _ => exact order_chain_of_kindRank_ne (by simp [kindRank])
    | _ => exact order_chain_of_kindRank_ne (by simp [kindRank])
  | list xs ih =>
    cases b with
    | list ys =>
      cases c with
      | list zs =>
        rw [order_list, order_list, order_list]
        refine (Chain.of_transCmp compare _ _ _).then fun hxy hyz => ?_
        exact firstDifference_chain ih (Nat.compare_eq_eq.1 hxy) (Nat.compare_eq_eq.1 hyz)
      | _ => exact order_chain_of_kindRank_ne (by simp [kindRank])
    | _ => exact order_chain_of_kindRank_ne (by simp [kindRank])
  | object xs ih =>
    cases b with
    | object ys =>
      cases c with
      | object zs =>
        have ih' : ∀ x ∈ (Fields.sorted xs).values, ∀ y z,
            Chain (order x y) (order y z) (order x z) := by
          intro x hx
          obtain ⟨f, hf, rfl⟩ := List.mem_map.1 hx
          exact ih f ((Fields.perm_sorted xs).mem_iff.1 hf)
        rw [order_object, order_object, order_object]
        refine (Chain.of_transCmp compare _ _ _).then fun hxy hyz => ?_
        refine (Chain.of_transCmp orderKeys _ _ _).then fun _ _ => ?_
        apply firstDifference_chain ih'
        · rw [Fields.length_values_sorted, Fields.length_values_sorted]
          exact Nat.compare_eq_eq.1 hxy
        · rw [Fields.length_values_sorted, Fields.length_values_sorted]
          exact Nat.compare_eq_eq.1 hyz
      | _ => exact order_chain_of_kindRank_ne (by simp [kindRank])
    | _ => exact order_chain_of_kindRank_ne (by simp [kindRank])

/-! ## Values without a difference -/

/-- What no item of a list tells apart from the item at the same place, a list of equal length
without a difference does not tell apart either. -/
theorem map_eq_of_firstDifference {γ : Type} {f : Json → γ} {xs ys : List Json}
    (hf : ∀ x ∈ xs, ∀ y, order x y = .eq → f x = f y) (hlen : xs.length = ys.length)
    (h : firstDifference (xs.map order) ys = .eq) : xs.map f = ys.map f := by
  induction xs generalizing ys with
  | nil =>
    cases ys with
    | nil => rfl
    | cons y ys => cases hlen
  | cons x xs ih =>
    cases ys with
    | nil => cases hlen
    | cons y ys =>
      rw [List.map_cons, firstDifference, Ordering.then_eq_eq] at h
      rw [List.map_cons, List.map_cons, hf x List.mem_cons_self y h.1,
        ih (fun z hz => hf z (List.mem_cons_of_mem _ hz)) (Nat.succ.inj hlen) h.2]

/-- Values without a difference are of one kind. -/
theorem kindRank_eq_of_order {a b : Json} (h : order a b = .eq) : a.kindRank = b.kindRank := by
  by_cases hk : a.kindRank = b.kindRank
  · exact hk
  · rw [order_of_kindRank_ne hk] at h
    exact Nat.compare_eq_eq.1 h

theorem map_eq_of_order_list {γ : Type} {f : Json → γ} {xs ys : List Json}
    (hf : ∀ x ∈ xs, ∀ y, order x y = .eq → f x = f y) (h : order (list xs) (list ys) = .eq) :
    xs.map f = ys.map f := by
  rw [order_list, Ordering.then_eq_eq] at h
  exact map_eq_of_firstDifference hf (Nat.compare_eq_eq.1 h.1) h.2

/-- Objects without a difference have the same sorted fields, for whatever does not tell their
values apart. -/
theorem mapValues_sorted_eq_of_order {γ : Type} {f : Json → γ} {xs ys : List (String × Json)}
    (hf : ∀ g ∈ xs, ∀ y, order g.2 y = .eq → f g.2 = f y)
    (h : order (object xs) (object ys) = .eq) :
    Fields.mapValues f (Fields.sorted xs) = Fields.mapValues f (Fields.sorted ys) := by
  rw [order_object, Ordering.then_eq_eq, Ordering.then_eq_eq] at h
  obtain ⟨hlen, hkeys, hvalues⟩ := h
  apply Fields.ext_keys_values
  · rw [Fields.keys_mapValues, Fields.keys_mapValues]
    exact Std.LawfulEqCmp.eq_of_compare hkeys
  · rw [Fields.values_mapValues, Fields.values_mapValues]
    refine map_eq_of_firstDifference ?_ ?_ hvalues
    · intro x hx
      obtain ⟨g, hg, rfl⟩ := List.mem_map.1 hx
      exact hf g ((Fields.perm_sorted xs).mem_iff.1 hg)
    · rw [Fields.length_values_sorted, Fields.length_values_sorted]
      exact Nat.compare_eq_eq.1 hlen

end Json

end Classwright
