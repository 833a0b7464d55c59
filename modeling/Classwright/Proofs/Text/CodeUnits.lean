import Classwright.Json.Order

/-!
# Texts by code points and by code units

Texts are ordered by code points. Ordinal comparison goes by the UTF-16 code units instead. A character
beyond U+FFFF has two of them, and these surrogates lie below the characters from U+E000 to U+FFFF, so
that the two orders differ.

* **`ordinal`** — the order of texts by their code units.
* **`Crossed`** — two characters that code points and code units order differently, and
  **`FirstCrossed`**, that such characters are the first difference of two texts.
* **`ordinal_eq`** — code units reverse the order of code points exactly where the first difference is
  crossed.
-/

namespace Classwright.Text

/-- The UTF-16 code units of a character. -/
def unitsOf (c : Char) : List Nat :=
  if c.toNat < 0x10000 then [c.toNat]
  else [0xD800 + (c.toNat - 0x10000) / 0x400, 0xDC00 + (c.toNat - 0x10000) % 0x400]

/-- The UTF-16 code units of a text. -/
def codeUnits (s : String) : List Nat := s.toList.flatMap unitsOf

/-- The order of texts by their code units: the first difference decides. -/
def ordinal (s t : String) : Ordering := List.compareLex compare (codeUnits s) (codeUnits t)

/-- One of the characters has two code units, and the other one has one that lies above them. -/
def Crossed (c d : Char) : Prop :=
  0x10000 ≤ c.toNat ∧ 0xE000 ≤ d.toNat ∧ d.toNat < 0x10000 ∨
    0x10000 ≤ d.toNat ∧ 0xE000 ≤ c.toNat ∧ c.toNat < 0x10000

/-- Texts that agree up to two crossed characters. -/
def FirstCrossed (s t : List Char) : Prop :=
  ∃ start c d s' t', s = start ++ c :: s' ∧ t = start ++ d :: t' ∧ Crossed c d

/-! ## Code points -/

theorem compare_char (c d : Char) : compare c d = compare c.toNat d.toNat := by
  have hlt : c < d ↔ c.toNat < d.toNat := Iff.rfl
  show compareOfLessAndEq c d = compareOfLessAndEq c.toNat d.toNat
  simp only [compareOfLessAndEq, hlt, Char.toNat_inj]

theorem compareOfLessAndEq_cons (c d : Char) (s t : List Char) :
    compareOfLessAndEq (c :: s) (d :: t) = (compare c d).then (compareOfLessAndEq s t) := by
  show _ = (compareOfLessAndEq c d).then _
  simp only [compareOfLessAndEq, List.cons_lt_cons_iff, List.cons.injEq]
  by_cases hlt : c < d
  · simp [hlt]
  · by_cases heq : c = d
    · subst heq
      simp only [hlt, false_or, true_and, ↓reduceIte, Ordering.eq_then]
    · simp [hlt, heq]

/-- Texts are ordered by code points. -/
theorem compare_text (s t : String) : compare s t = List.compareLex compare s.toList t.toList := by
  have hlists (s t : List Char) : compareOfLessAndEq s t = List.compareLex compare s t := by
    induction s generalizing t with
    | nil => cases t <;> rfl
    | cons c s ih =>
      cases t with
      | nil => rfl
      | cons d t => rw [List.compareLex_cons_cons, ← ih, compareOfLessAndEq_cons]
  have hlt : s < t ↔ s.toList < t.toList := Iff.rfl
  rw [← hlists]
  show compareOfLessAndEq s t = _
  simp only [compareOfLessAndEq, hlt, String.toList_inj]

/-! ## Code units -/

theorem compareLex_append_left (us vs ws : List Nat) :
    List.compareLex compare (us ++ vs) (us ++ ws) = List.compareLex compare vs ws := by
  induction us with
  | nil => rfl
  | cons u us ih =>
    rw [List.cons_append, List.cons_append, List.compareLex_cons_cons, Nat.compare_eq_eq.2 rfl, ih]
    rfl

theorem Crossed.symm {c d : Char} (h : Crossed c d) : Crossed d c := Or.symm h

/-- Of two characters the smaller one has the smaller code units, unless they are crossed. -/
theorem compareLex_unitsOf_of_lt {c d : Char} (h : c.toNat < d.toNat) (us vs : List Nat) :
    Crossed c d ∧ List.compareLex compare (unitsOf c ++ us) (unitsOf d ++ vs) = .gt ∨
      ¬ Crossed c d ∧ List.compareLex compare (unitsOf c ++ us) (unitsOf d ++ vs) = .lt := by
  -- no character is a surrogate
  have hc : c.toNat < 0xD800 ∨ 0xDFFF < c.toNat ∧ c.toNat < 0x110000 := c.valid
  unfold unitsOf Crossed
  by_cases hd : d.toNat < 0x10000
  · refine Or.inr ⟨by omega, ?_⟩
    rw [if_pos (by omega), if_pos hd, List.singleton_append, List.singleton_append,
      List.compareLex_cons_cons, Nat.compare_eq_lt.2 h]
    rfl
  have hd' : d.toNat < 0xD800 ∨ 0xDFFF < d.toNat ∧ d.toNat < 0x110000 := d.valid
  rw [if_neg hd, List.cons_append]
  by_cases hc' : c.toNat < 0x10000
  · rw [if_pos hc', List.singleton_append, List.compareLex_cons_cons]
    rcases hc with hc | hc
    · refine Or.inr ⟨by omega, ?_⟩
      rw [Nat.compare_eq_lt.2 (by omega)]
      rfl
    · refine Or.inl ⟨by omega, ?_⟩
      rw [Nat.compare_eq_gt.2 (by omega)]
      rfl
  · refine Or.inr ⟨by omega, ?_⟩
    rw [if_neg hc', List.cons_append, List.compareLex_cons_cons]
    -- both have two code units, and the first ones may agree
    have hhigh := Nat.div_le_div_right (c := 0x400) (Nat.sub_le_sub_right (Nat.le_of_lt h) 0x10000)
    rcases Nat.lt_or_eq_of_le hhigh with hhigh | hhigh
    · rw [Nat.compare_eq_lt.2 (by omega)]
      rfl
    · rw [Nat.compare_eq_eq.2 (by omega), List.cons_append, List.cons_append, List.compareLex_cons_cons,
        Nat.compare_eq_lt.2 (by omega)]
      rfl

/-- **The first characters that differ decide**, the other way round where they are crossed. -/
theorem compareLex_unitsOf {c d : Char} (h : c ≠ d) (us vs : List Nat) :
    Crossed c d ∧ List.compareLex compare (unitsOf c ++ us) (unitsOf d ++ vs) = (compare c d).swap ∨
      ¬ Crossed c d ∧ List.compareLex compare (unitsOf c ++ us) (unitsOf d ++ vs) = compare c d := by
  rw [compare_char]
  rcases Nat.lt_trichotomy c.toNat d.toNat with hlt | heq | hgt
  · rw [Nat.compare_eq_lt.2 hlt]
    exact compareLex_unitsOf_of_lt hlt us vs
  · exact absurd (Char.toNat_inj.1 heq) h
  · have hcrossed : Crossed c d ↔ Crossed d c := ⟨Crossed.symm, Crossed.symm⟩
    have hswap : List.compareLex compare (unitsOf c ++ us) (unitsOf d ++ vs) =
        (List.compareLex compare (unitsOf d ++ vs) (unitsOf c ++ us)).swap := Std.OrientedCmp.eq_swap
    rw [Nat.compare_eq_gt.2 hgt, hswap, hcrossed]
    rcases compareLex_unitsOf_of_lt hgt vs us with ⟨hcross, hunits⟩ | ⟨hcross, hunits⟩
    · exact Or.inl ⟨hcross, by rw [hunits]⟩
    · exact Or.inr ⟨hcross, by rw [hunits]; rfl⟩

theorem exists_unitsOf_eq_cons (c : Char) : ∃ u us, unitsOf c = u :: us := by
  unfold unitsOf
  split
  · exact ⟨_, _, rfl⟩
  · exact ⟨_, _, rfl⟩

theorem firstCrossed_cons_self {c : Char} {s t : List Char} :
    FirstCrossed (c :: s) (c :: t) ↔ FirstCrossed s t := by
  constructor
  · rintro ⟨start, d, e, s', t', hs, ht, hcrossed⟩
    cases start with
    | nil =>
      rw [List.nil_append, List.cons.injEq] at hs ht
      rw [← hs.1, ← ht.1] at hcrossed
      unfold Crossed at hcrossed
      omega
    | cons a start =>
      rw [List.cons_append, List.cons.injEq] at hs ht
      exact ⟨start, d, e, s', t', hs.2, ht.2, hcrossed⟩
  · rintro ⟨start, d, e, s', t', rfl, rfl, hcrossed⟩
    exact ⟨c :: start, d, e, s', t', rfl, rfl, hcrossed⟩

theorem firstCrossed_cons {c d : Char} (h : c ≠ d) {s t : List Char} :
    FirstCrossed (c :: s) (d :: t) ↔ Crossed c d := by
  constructor
  · rintro ⟨start, d, e, s', t', hs, ht, hcrossed⟩
    cases start with
    | nil =>
      rw [List.nil_append, List.cons.injEq] at hs ht
      rw [hs.1, ht.1]
      exact hcrossed
    | cons a start =>
      rw [List.cons_append, List.cons.injEq] at hs ht
      exact absurd (hs.1.trans ht.1.symm) h
  · exact fun hcrossed => ⟨[], c, d, s, t, rfl, rfl, hcrossed⟩

theorem not_firstCrossed_of_nil {s t : List Char} (h : s = [] ∨ t = []) : ¬ FirstCrossed s t := by
  rintro ⟨start, c, d, s', t', rfl, rfl, -⟩
  simp at h

/-- **Code units reverse the order of code points exactly where the first difference is crossed.** -/
theorem ordinal_eq (s t : String) :
    FirstCrossed s.toList t.toList ∧ ordinal s t = (compare s t).swap ∨
      ¬ FirstCrossed s.toList t.toList ∧ ordinal s t = compare s t := by
  unfold ordinal codeUnits
  rw [compare_text]
  generalize s.toList = s, t.toList = t
  induction s generalizing t with
  | nil =>
    refine Or.inr ⟨not_firstCrossed_of_nil (Or.inl rfl), ?_⟩
    cases t with
    | nil => rfl
    | cons d t =>
      obtain ⟨u, us, hu⟩ := exists_unitsOf_eq_cons d
      rw [List.flatMap_nil, List.flatMap_cons, hu]
      rfl
  | cons c s ih =>
    cases t with
    | nil =>
      refine Or.inr ⟨not_firstCrossed_of_nil (Or.inr rfl), ?_⟩
      obtain ⟨u, us, hu⟩ := exists_unitsOf_eq_cons c
      rw [List.flatMap_nil, List.flatMap_cons, hu]
      rfl
    | cons d t =>
      rw [List.flatMap_cons, List.flatMap_cons, List.compareLex_cons_cons]
      by_cases h : c = d
      · subst h
        rw [firstCrossed_cons_self, compareLex_append_left, compare_char, Nat.compare_eq_eq.2 rfl]
        exact ih t
      · have hne : compare c d ≠ .eq := by
          rw [compare_char, Ne, Nat.compare_eq_eq, Char.toNat_inj]
          exact h
        have hthen (o : Ordering) : (compare c d).then o = compare c d := by
          revert hne
          cases compare c d <;> simp
        rw [firstCrossed_cons h, hthen]
        exact compareLex_unitsOf h _ _

theorem FirstCrossed.ne {s t : List Char} (h : FirstCrossed s t) : s ≠ t := by
  obtain ⟨start, c, d, s', t', rfl, rfl, hcrossed⟩ := h
  intro heq
  have hhead := (List.cons.inj (List.append_cancel_left heq)).1
  subst hhead
  unfold Crossed at hcrossed
  omega

/-- Code units and code points agree on two texts exactly if the first difference is not crossed. -/
theorem ordinal_eq_compare_iff (s t : String) :
    ordinal s t = compare s t ↔ ¬ FirstCrossed s.toList t.toList := by
  rcases ordinal_eq s t with ⟨hcrossed, hreversed⟩ | ⟨hcrossed, hsame⟩
  · refine iff_of_false (fun hsame => ?_) (not_not_intro hcrossed)
    have hne : compare s t ≠ .eq := fun heq =>
      hcrossed.ne (congrArg String.toList (Std.LawfulEqCmp.eq_of_compare heq))
    rw [hsame] at hreversed
    revert hne hreversed
    cases compare s t <;> decide
  · exact iff_of_true hsame hcrossed

end Classwright.Text
