import Mathlib.Tactic.Ring
import Mathlib.Tactic.SplitIfs
import Classwright.Json.Basic

/-!
# Integers as doubles

Up to `2 ^ 53` every integer is a double. Beyond, doubles stand further and further apart, and an
integer becomes the nearest one.

* **`nearest`** — the double nearest to an integer, as an integer again: a multiple of the `spacing` of
  doubles around it. No integer with a significand of 53 bits is closer (`isNearest_nearest`).
* **`significandOf`** — the 53 bits of that double. A position is an exponent and a significand side by
  side, so positions are ordered as what they stand for (`lt_iff_of_significand`).
* **`order_ofInt`** — doubles order two integers as the integers themselves, except that integers with
  the same nearest double become equal.
-/

namespace Classwright.Binary64

/-! ## Rounded quotients -/

/-- The quotient is rounded down or up, to the side that is not further away. -/
theorem roundQuotient_cases (a b : Nat) :
    roundQuotient a b = a / b ∧ 2 * (a % b) ≤ b ∨ roundQuotient a b = a / b + 1 ∧ b ≤ 2 * (a % b) := by
  unfold roundQuotient
  dsimp only
  split
  · omega
  · split <;> omega

theorem le_roundQuotient {a b k : Nat} (hb : 0 < b) (h : k * b ≤ a) : k ≤ roundQuotient a b := by
  have hk := (Nat.le_div_iff_mul_le hb).2 h
  have := roundQuotient_cases a b
  omega

theorem roundQuotient_le {a b k : Nat} (hb : 0 < b) (h : a ≤ k * b) : roundQuotient a b ≤ k := by
  rcases Nat.lt_or_eq_of_le h with h | rfl
  · have hk := (Nat.div_lt_iff_lt_mul hb).2 h
    have := roundQuotient_cases a b
    omega
  · have := roundQuotient_cases (k * b) b
    rw [Nat.mul_div_cancel k hb, Nat.mul_mod_left] at this
    omega

theorem roundQuotient_mono {a a' b : Nat} (h : a ≤ a') : roundQuotient a b ≤ roundQuotient a' b := by
  rcases Nat.lt_or_eq_of_le (Nat.div_le_div_right (c := b) h) with hq | hq
  · have := roundQuotient_cases a b
    have := roundQuotient_cases a' b
    omega
  · have hr : a % b ≤ a' % b := by
      have ha := Nat.div_add_mod a b
      have ha' := Nat.div_add_mod a' b
      rw [hq] at ha
      omega
    unfold roundQuotient
    dsimp only
    rw [hq]
    split_ifs <;> omega

/-- No multiple of the divisor is closer. -/
theorem roundQuotient_closest {a b : Nat} (hb : 0 < b) (k : Nat) :
    ((a : Int) - (roundQuotient a b * b : Nat)).natAbs ≤ ((a : Int) - (k * b : Nat)).natAbs := by
  have hdiv := Nat.div_add_mod' a b
  have hmod := Nat.mod_lt a hb
  have hk : k * b ≤ a / b * b ∨ a / b * b + b ≤ k * b := by
    rcases Nat.lt_or_ge (a / b) k with h | h
    · exact Or.inr (by rw [← Nat.succ_mul]; exact Nat.mul_le_mul_right b h)
    · exact Or.inl (Nat.mul_le_mul_right b h)
  rcases roundQuotient_cases a b with ⟨hq, hr⟩ | ⟨hq, hr⟩
  · rw [hq]
    omega
  · rw [hq, Nat.succ_mul]
    omega

/-! ## Significands -/

/-- The distance of doubles around a whole number, where it is not less than one. -/
def spacing (n : Nat) : Nat := 2 ^ (n.log2 - 52)

/-- The double nearest to a whole number. -/
def nearestNat (n : Nat) : Nat := roundQuotient n (spacing n) * spacing n

/-- The 53 bits of the double nearest to a whole number, from the leading one on. -/
def significandOf (n : Nat) : Nat :=
  if 52 ≤ n.log2 then roundQuotient n (spacing n) else n * 2 ^ (52 - n.log2)

theorem roundQuotient_one (n : Nat) : roundQuotient n 1 = n := by
  have := roundQuotient_cases n 1
  omega

theorem spacing_of_log2_le {n : Nat} (h : n.log2 ≤ 52) : spacing n = 1 := by
  rw [spacing, Nat.sub_eq_zero_of_le h, Nat.pow_zero]

theorem spacing_pos (n : Nat) : 0 < spacing n := Nat.two_pow_pos _

theorem nearestNat_of_le {n : Nat} (h : n ≤ 2 ^ 53) : nearestNat n = n := by
  rcases Nat.lt_or_eq_of_le h with h | rfl
  · have hlog : n.log2 ≤ 52 := by
      by_cases hn : n = 0
      · simp [hn]
      · exact Nat.lt_succ_iff.1 ((Nat.log2_lt hn).2 h)
    rw [nearestNat, spacing_of_log2_le hlog, roundQuotient_one, Nat.mul_one]
  · decide +kernel

/-- The significand stands before as many binary places as the leading digit says. -/
theorem nearestNat_mul (n : Nat) : nearestNat n * 2 ^ 52 = significandOf n * 2 ^ n.log2 := by
  unfold nearestNat significandOf
  split
  · next h =>
    rw [Nat.mul_assoc, spacing, ← Nat.pow_add, Nat.sub_add_cancel h]
  · next h =>
    rw [spacing_of_log2_le (by omega), roundQuotient_one, Nat.mul_one, Nat.mul_assoc, ← Nat.pow_add,
      Nat.sub_add_cancel (by omega)]

theorem significandOf_bounds {n : Nat} (hn : n ≠ 0) :
    2 ^ 52 ≤ significandOf n ∧ significandOf n ≤ 2 * 2 ^ 52 := by
  have hlow := Nat.log2_self_le hn
  have hhigh : n < 2 ^ (n.log2 + 1) := Nat.lt_log2_self
  unfold significandOf
  split
  · next h =>
    have hpow : 2 ^ 52 * spacing n = 2 ^ n.log2 := by
      rw [spacing, ← Nat.pow_add, Nat.add_sub_cancel' h]
    refine ⟨le_roundQuotient (spacing_pos n) (by rw [hpow]; exact hlow),
      roundQuotient_le (spacing_pos n) ?_⟩
    rw [Nat.mul_assoc, hpow, Nat.mul_comm, ← Nat.pow_succ]
    exact Nat.le_of_lt hhigh
  · next h =>
    have hpow : 2 ^ n.log2 * 2 ^ (52 - n.log2) = 2 ^ 52 := by
      rw [← Nat.pow_add, Nat.add_sub_cancel' (by omega)]
    rw [← hpow, ← Nat.mul_assoc]
    refine ⟨Nat.mul_le_mul_right _ hlow, Nat.mul_le_mul_right _ ?_⟩
    rw [Nat.mul_comm, ← Nat.pow_succ]
    exact Nat.le_of_lt hhigh

/-- **An exponent beside a significand is ordered as what they stand for.** The significand may reach the
next power of two: it then stands for the same as the next exponent with the smallest significand. -/
theorem lt_iff_of_significand {base : Nat} (hbase : 0 < base) {e e' s s' : Nat}
    (hs : base ≤ s ∧ s ≤ 2 * base) (hs' : base ≤ s' ∧ s' ≤ 2 * base) :
    e * base + s < e' * base + s' ↔ s * 2 ^ e < s' * 2 ^ e' := by
  -- a smaller exponent never reaches beyond a larger one
  have hstep {e e' s s' : Nat} (hs : s ≤ 2 * base) (hs' : base ≤ s') (h : e < e') :
      (e * base + s < e' * base + s' ↔ s * 2 ^ e < s' * 2 ^ e') ∧ ¬ e' * base + s' < e * base + s ∧
        ¬ s' * 2 ^ e' < s * 2 ^ e := by
    obtain ⟨d, rfl⟩ := Nat.exists_eq_add_of_lt h
    have hpos : 0 < 2 ^ e := Nat.two_pow_pos e
    have hleft : (e + d + 1) * base = e * base + d * base + base := by ring
    have hright : s' * 2 ^ (e + d + 1) = (2 * s' * 2 ^ d) * 2 ^ e := by ring
    have hd : 1 ≤ 2 ^ d := Nat.one_le_two_pow
    have hgrow : 2 * s' ≤ 2 * s' * 2 ^ d := Nat.le_mul_of_pos_right _ hd
    rw [hright, hleft, Nat.mul_lt_mul_right hpos, Nat.mul_lt_mul_right hpos]
    refine ⟨?_, by omega, by omega⟩
    cases d with
    | zero => omega
    | succ d =>
      have hdouble : 2 * s' * 2 ^ (d + 1) = 2 * (2 * s' * 2 ^ d) := by ring
      have hd : 1 ≤ 2 ^ d := Nat.one_le_two_pow
      have hgrow : 2 * s' ≤ 2 * s' * 2 ^ d := Nat.le_mul_of_pos_right _ hd
      have hsucc : (d + 1) * base = d * base + base := by ring
      omega
  rcases Nat.lt_trichotomy e e' with h | rfl | h
  · exact (hstep hs.2 hs'.1 h).1
  · rw [Nat.add_lt_add_iff_left, Nat.mul_lt_mul_right (Nat.two_pow_pos e)]
  · obtain ⟨-, hleft, hright⟩ := hstep hs'.2 hs.1 h
    exact ⟨fun h => absurd h hleft, fun h => absurd h hright⟩

/-! ## Positions -/

theorem unitExponent_one {n : Nat} (hn : n ≠ 0) : unitExponent n 1 = (n.log2 : Int) - 52 := by
  have hone : Nat.log2 1 = 0 := by decide +kernel
  have hlow : belowPower n 1 n.log2 = false := by
    show decide (n < 1 <<< n.log2) = false
    rw [Nat.one_shiftLeft, decide_eq_false_iff_not, Nat.not_lt]
    exact Nat.log2_self_le hn
  simp only [unitExponent, hone, Int.natCast_zero, Int.sub_zero, hlow, Bool.false_eq_true, if_false]
  omega

theorem roundScaled_one (n : Nat) : roundScaled n 1 ((n.log2 : Int) - 52) = significandOf n := by
  unfold significandOf
  split
  · next h =>
    have hscale : (n.log2 : Int) - 52 = Int.ofNat (n.log2 - 52) := by simp [h]
    rw [hscale, roundScaled, Nat.one_shiftLeft, spacing]
  · next h =>
    have hscale : (n.log2 : Int) - 52 = Int.negSucc (51 - n.log2) := by omega
    have hshift : 51 - n.log2 + 1 = 52 - n.log2 := by omega
    rw [hscale, roundScaled, roundQuotient_one, Nat.shiftLeft_eq, hshift]

theorem binade_eq : binade = 2 ^ 52 := by decide

/-- The position of the double nearest to a whole number. -/
def positionOf (n : Nat) : Nat := if n = 0 then 0 else (n.log2 + 1022) * binade + significandOf n

theorem positionOf_lt_infinite {n : Nat} (h : n < 2 ^ 64) : positionOf n < infinite := by
  unfold positionOf
  split
  · decide
  · next hn =>
    have hlog : n.log2 < 64 := (Nat.log2_lt hn).2 h
    have hsignificand := (significandOf_bounds hn).2
    rw [infinite, binade_eq]
    omega

theorem ofInt_eq {n : Int} (h : n.natAbs < 2 ^ 64) :
    ofInt n = ⟨decide (n < 0), positionOf n.natAbs⟩ := by
  have hfinite := positionOf_lt_infinite h
  rw [ofInt, ofRatio]
  by_cases hn : n.natAbs = 0
  · rw [if_pos hn, hn]
    rfl
  · have hexponent : ((n.natAbs.log2 : Int) - 52 + 1074).toNat = n.natAbs.log2 + 1022 := by omega
    rw [positionOf, if_neg hn] at hfinite ⊢
    simp only [if_neg hn, unitExponent_one hn, hexponent, roundScaled_one, if_pos hfinite,
      Option.getD_some]

theorem positionOf_pos {n : Nat} (hn : n ≠ 0) : 0 < positionOf n := by
  have := (significandOf_bounds hn).1
  rw [positionOf, if_neg hn]
  omega

theorem nearestNat_pos {n : Nat} (hn : n ≠ 0) : 0 < nearestNat n := by
  have hmul := nearestNat_mul n
  have := Nat.mul_le_mul_right (2 ^ n.log2) (significandOf_bounds hn).1
  have := Nat.two_pow_pos n.log2
  omega

/-- **Positions are ordered as the doubles at them.** -/
theorem positionOf_lt_iff (m n : Nat) : positionOf m < positionOf n ↔ nearestNat m < nearestNat n := by
  by_cases hn : n = 0
  · subst hn
    exact iff_of_false (Nat.not_lt_zero _) (Nat.not_lt_zero _)
  by_cases hm : m = 0
  · subst hm
    exact iff_of_true (positionOf_pos hn) (nearestNat_pos hn)
  have hscaled : m.log2 * 2 ^ 52 + significandOf m < n.log2 * 2 ^ 52 + significandOf n ↔
      nearestNat m < nearestNat n := by
    rw [lt_iff_of_significand (Nat.two_pow_pos 52) (significandOf_bounds hm) (significandOf_bounds hn),
      ← nearestNat_mul, ← nearestNat_mul, Nat.mul_lt_mul_right (Nat.two_pow_pos 52)]
  rw [← hscaled, positionOf, positionOf, if_neg hm, if_neg hn, binade_eq, Nat.add_mul, Nat.add_mul,
    Nat.add_right_comm, Nat.add_right_comm _ _ (significandOf n), Nat.add_lt_add_iff_right]

theorem nearestNat_mono {m n : Nat} (h : m ≤ n) : nearestNat m ≤ nearestNat n := by
  by_cases hm : m = 0
  · rw [hm]
    exact Nat.zero_le _
  have hn : n ≠ 0 := by omega
  have hle : m.log2 ≤ n.log2 := (Nat.le_log2 hn).2 (Nat.le_trans (Nat.log2_self_le hm) h)
  rcases Nat.lt_or_eq_of_le hle with hlog | hlog
  · -- the power of two between the two numbers is a double
    refine Nat.le_of_mul_le_mul_right ?_ (Nat.two_pow_pos 52)
    calc nearestNat m * 2 ^ 52 = significandOf m * 2 ^ m.log2 := nearestNat_mul m
      _ ≤ 2 * 2 ^ 52 * 2 ^ m.log2 := Nat.mul_le_mul_right _ (significandOf_bounds hm).2
      _ = 2 ^ 52 * 2 ^ (m.log2 + 1) := by ring
      _ ≤ 2 ^ 52 * 2 ^ n.log2 := Nat.mul_le_mul_left _ (Nat.pow_le_pow_right (by decide) hlog)
      _ ≤ significandOf n * 2 ^ n.log2 := Nat.mul_le_mul_right _ (significandOf_bounds hn).1
      _ = nearestNat n * 2 ^ 52 := (nearestNat_mul n).symm
  · rw [nearestNat, nearestNat, spacing, spacing, hlog]
    exact Nat.mul_le_mul_right _ (roundQuotient_mono h)

/-- A whole number with 53 significant binary digits at most. -/
def Short (n : Nat) : Prop := ∃ digits places, digits ≤ 2 ^ 53 ∧ n = digits * 2 ^ places

theorem short_zero : Short 0 := ⟨0, 0, Nat.zero_le _, rfl⟩

theorem short_nearestNat (n : Nat) : Short (nearestNat n) := by
  by_cases h : 52 ≤ n.log2
  · have hn : n ≠ 0 := by
      rintro rfl
      exact absurd h (by decide)
    have hbound := (significandOf_bounds hn).2
    rw [significandOf, if_pos h] at hbound
    exact ⟨_, _, Nat.le_trans hbound (by decide), rfl⟩
  · rw [nearestNat, spacing_of_log2_le (by omega), roundQuotient_one, Nat.mul_one]
    have hn : n < 2 ^ 53 := Nat.lt_of_lt_of_le Nat.lt_log2_self
      (Nat.pow_le_pow_right (by decide) (by omega))
    exact ⟨n, 0, Nat.le_of_lt hn, (Nat.mul_one n).symm⟩

/-- **No double is closer.** -/
theorem nearestNat_closest (n : Nat) {k : Nat} (hk : Short k) :
    ((n : Int) - nearestNat n).natAbs ≤ ((n : Int) - k).natAbs := by
  obtain ⟨digits, places, hdigits, rfl⟩ := hk
  have hclosest := roundQuotient_closest (a := n) (spacing_pos n)
  rcases Nat.lt_or_ge places (n.log2 - 52) with h | h
  · -- too few places to reach the leading digit of the number, which is a multiple of the spacing
    have hn : n ≠ 0 := by
      rintro rfl
      simp at h
    have hbelow : digits * 2 ^ places ≤ 2 ^ 52 * spacing n := by
      calc digits * 2 ^ places ≤ 2 ^ 53 * 2 ^ places := Nat.mul_le_mul_right _ hdigits
        _ = 2 ^ 52 * 2 ^ (places + 1) := by ring
        _ ≤ 2 ^ 52 * spacing n := Nat.mul_le_mul_left _ (Nat.pow_le_pow_right (by decide) h)
    have hleading : 2 ^ 52 * spacing n ≤ n := by
      rw [spacing, ← Nat.pow_add, Nat.add_sub_cancel' (by omega)]
      exact Nat.log2_self_le hn
    have := hclosest (2 ^ 52)
    rw [nearestNat]
    omega
  · -- a multiple of the spacing
    have hmultiple : digits * 2 ^ places = digits * 2 ^ (places - (n.log2 - 52)) * spacing n := by
      rw [spacing, Nat.mul_assoc, ← Nat.pow_add, Nat.sub_add_cancel h]
    rw [hmultiple]
    exact hclosest _

/-! ## Integers -/

/-- The double nearest to an integer, as an integer. -/
def nearest (n : Int) : Int := if n < 0 then -(nearestNat n.natAbs : Int) else nearestNat n.natAbs

theorem nearest_of_le {n : Int} (h : n.natAbs ≤ 2 ^ 53) : nearest n = n := by
  rw [nearest, nearestNat_of_le h]
  omega

theorem nearest_mono {x y : Int} (h : x ≤ y) : nearest x ≤ nearest y := by
  unfold nearest
  split <;> split
  · have := nearestNat_mono (m := y.natAbs) (n := x.natAbs) (by omega)
    omega
  · omega
  · omega
  · have := nearestNat_mono (m := x.natAbs) (n := y.natAbs) (by omega)
    omega

/-- An integer is nearest to another one among those with a short magnitude. -/
structure IsNearest (n m : Int) : Prop where
  short : Short m.natAbs
  closest (k : Int) (hk : Short k.natAbs) : (n - m).natAbs ≤ (n - k).natAbs

theorem isNearest_nearest (n : Int) : IsNearest n (nearest n) where
  short := by
    have habs : (nearest n).natAbs = nearestNat n.natAbs := by
      unfold nearest
      split <;> omega
    rw [habs]
    exact short_nearestNat n.natAbs
  closest k hk := by
    have hclosest := nearestNat_closest n.natAbs hk
    have hzero := nearestNat_closest n.natAbs short_zero
    unfold nearest
    split <;> omega

theorem rank_ofInt {n : Int} (h : n.natAbs < 2 ^ 64) :
    (ofInt n).rank = if n < 0 then -(positionOf n.natAbs : Int) else positionOf n.natAbs := by
  rw [ofInt_eq h, rank]
  simp only [decide_eq_true_eq]

theorem rank_lt_iff {x y : Int} (hx : x.natAbs < 2 ^ 64) (hy : y.natAbs < 2 ^ 64) :
    (ofInt x).rank < (ofInt y).rank ↔ nearest x < nearest y := by
  have hxy := positionOf_lt_iff x.natAbs y.natAbs
  have hyx := positionOf_lt_iff y.natAbs x.natAbs
  rw [rank_ofInt hx, rank_ofInt hy, nearest, nearest]
  split <;> split
  · omega
  · have hpos := positionOf_pos (n := x.natAbs) (by omega)
    have hpos' := nearestNat_pos (n := x.natAbs) (by omega)
    omega
  · omega
  · omega

/-- **Integers as doubles** are ordered as integers, but those with the same nearest double are equal. -/
theorem order_ofInt {x y : Int} (hx : x.natAbs < 2 ^ 64) (hy : y.natAbs < 2 ^ 64) :
    (ofInt x).order (ofInt y) = if nearest x = nearest y then .eq else compare x y := by
  have hlt := rank_lt_iff hx hy
  have hgt := rank_lt_iff hy hx
  rw [order]
  split
  · next h =>
    rw [Int.compare_eq_eq]
    omega
  · next h =>
    rcases Int.lt_trichotomy x y with hxy | rfl | hxy
    · have := nearest_mono (Int.le_of_lt hxy)
      rw [Int.compare_eq_lt.2 hxy, Int.compare_eq_lt]
      omega
    · exact absurd rfl h
    · have := nearest_mono (Int.le_of_lt hxy)
      rw [Int.compare_eq_gt.2 hxy, Int.compare_eq_gt]
      omega

end Classwright.Binary64
