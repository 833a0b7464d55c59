import Classwright.Json.Printer
import Classwright.Json.Scanner

/-!
# Printed tokens are read back

A scanner that is given a printed token and what follows it gives the token, and leaves what follows.

* **`takes_string`** — strings, with all their escapes. Every character is printed as one of three
  forms, and each of them is read as one character (`stringFrom_printChar`).
* **`takes_scalar_integer`** — whole numbers of up to 64 bits. What follows must not go on with the
  number (`EndsNumber`).
-/

namespace Classwright.Json

/-- Whether a scanner or reader gives a value and leaves the given rest. -/
def Takes {ε α : Type} {s : List Char} (x : Except ε (Taken α s)) (value : α) (rest : List Char) : Prop :=
  ∃ h, x = .ok ⟨value, rest, h⟩

theorem Takes.map {ε α β : Type} {s rest : List Char} {x : Except ε (Taken α s)} {value : α}
    (h : Takes x value rest) (f : α → β) : Takes (x.map (Taken.map f)) (f value) rest := by
  obtain ⟨hshorter, hx⟩ := h
  rw [hx]
  exact ⟨hshorter, rfl⟩

/-! ## Strings -/

/-- A printed string after its opening quote. -/
def printBody (cs rest : List Char) : List Char :=
  cs.foldr (fun c tail => printChar c ++ tail) ('"' :: rest)

theorem hexValue?_hexDigit : ∀ n < 16, hexValue? (hexDigit n) = some n := by decide

theorem hexDigit_mod (n : Nat) : hexDigit (n % 16) = hexDigit n := by
  unfold hexDigit
  rw [Nat.mod_mod]

/-- The escape of a control character. -/
theorem takes_escape_control {c : Char} (h : c.toNat < 0x20) (tail : List Char) :
    Takes (escape ('u' :: '0' :: '0' :: hexDigit (c.toNat / 16) :: hexDigit c.toNat :: tail)) c tail := by
  have hhigh : hexValue? (hexDigit (c.toNat / 16)) = some (c.toNat / 16) :=
    hexValue?_hexDigit _ (by omega)
  have hlow : hexValue? (hexDigit c.toNat) = some (c.toNat % 16) := by
    rw [← hexDigit_mod]
    exact hexValue?_hexDigit _ (by omega)
  have hzero : hexValue? '0' = some 0 := by decide
  have hvalue : ((0 * 16 + 0) * 16 + c.toNat / 16) * 16 + c.toNat % 16 = c.toNat := by omega
  have hunit : Takes (hexUnit ('0' :: '0' :: hexDigit (c.toNat / 16) :: hexDigit c.toNat :: tail))
      c.toNat tail := by
    unfold hexUnit
    simp only [hzero, hhigh, hlow, hvalue]
    exact ⟨_, rfl⟩
  obtain ⟨hshorter, hunit⟩ := hunit
  -- a control character is no half of a surrogate pair
  have htrailing : isTrailing c.toNat = false := by simp [isTrailing]; omega
  have hleading : isLeading c.toNat = false := by simp [isLeading]; omega
  unfold escape unicodeEscape
  simp only [hunit, bind, Except.bind, htrailing, hleading, Bool.false_eq_true, if_false,
    Char.ofNat_toNat]
  exact ⟨_, rfl⟩

/-- A character is printed as an escape that stands for it, or as it is. -/
theorem printChar_cases (c : Char) :
    (∃ r, printChar c = '\\' :: r ∧ ∀ tail, Takes (escape (r ++ tail)) c tail) ∨
      printChar c = [c] ∧ c ≠ '"' ∧ c ≠ '\\' ∧ ¬ c.toNat < 0x20 := by
  unfold printChar
  split
  -- the last form is that of all characters that have no escape of one letter
  case h_8 c hquote hbackslash _ _ _ _ _ =>
    split
    · next hcontrol => exact Or.inl ⟨_, rfl, takes_escape_control hcontrol⟩
    · next hprinted => exact Or.inr ⟨rfl, hquote, hbackslash, hprinted⟩
  all_goals exact Or.inl ⟨_, rfl, fun tail => ⟨by simp, rfl⟩⟩

/-- One printed character is read as one character. -/
theorem stringFrom_printChar {s₀ s : List Char} {c : Char} {tail : List Char}
    (hs : s = printChar c ++ tail) (done : List Char) (h : s.length ≤ s₀.length) :
    ∃ h', stringFrom done s h = stringFrom (c :: done) tail h' := by
  have htail : tail.length ≤ s₀.length := by
    rw [hs, List.length_append] at h
    omega
  refine ⟨htail, ?_⟩
  rcases printChar_cases c with ⟨r, hprint, hescape⟩ | ⟨hprint, hquote, hbackslash, hprinted⟩
  · rw [hprint, List.cons_append] at hs
    subst hs
    obtain ⟨hshorter, hescape⟩ := hescape tail
    rw [stringFrom, hescape]
  · rw [hprint, List.singleton_append] at hs
    subst hs
    rw [stringFrom.eq_4 _ _ _ _ hquote hbackslash, if_neg hprinted]

theorem stringFrom_printBody {s₀ : List Char} (cs done rest : List Char)
    (h : (printBody cs rest).length ≤ s₀.length) :
    Takes (stringFrom done (printBody cs rest) h) (String.ofList (done.reverse ++ cs)) rest := by
  induction cs generalizing done with
  | nil =>
    rw [List.append_nil]
    exact ⟨h, stringFrom.eq_2 done rest h⟩
  | cons c cs ih =>
    have hbody : printBody (c :: cs) rest = printChar c ++ printBody cs rest := rfl
    obtain ⟨h', hstep⟩ := stringFrom_printChar hbody done h
    rw [hstep]
    have hrest := ih (c :: done) h'
    rwa [List.reverse_cons, List.append_assoc, List.singleton_append] at hrest

/-- **Strings are read back.** The opening quote has been read. -/
theorem takes_string (text : String) (rest : List Char) :
    Takes (string (printBody text.toList rest)) text rest := by
  have h := stringFrom_printBody text.toList [] rest (Nat.le_refl _)
  rwa [List.reverse_nil, List.nil_append, String.ofList_toList] at h

/-! ## Whole numbers -/

/-- Whether a text that follows a number does not go on with it. -/
def EndsNumber (rest : List Char) : Prop :=
  ∀ c ∈ rest.head?, c.isDigit = false ∧ c ≠ '.' ∧ c ≠ 'e' ∧ c ≠ 'E'

theorem digitRun_append_of_ends {digits rest : List Char} (hdigits : ∀ c ∈ digits, c.isDigit = true)
    (h : EndsNumber rest) : digitRun (digits ++ rest) = (digits, rest) := by
  unfold digitRun
  rw [List.takeWhile_append_of_pos hdigits, List.dropWhile_append_of_pos hdigits]
  cases rest with
  | nil => simp
  | cons c r =>
    have hc := (h c rfl).1
    simp [hc]

theorem head?_toDigits_append (n : Nat) (rest : List Char) :
    (Nat.toDigits 10 n ++ rest).head? = (Nat.toDigits 10 n).head? := by
  cases hdigits : Nat.toDigits 10 n with
  | nil => exact absurd hdigits Nat.toDigits_ne_nil
  | cons d ds => rfl

/-- A number other than zero does not start with the digit zero. -/
theorem head?_toDigits_ne {n : Nat} (h : n ≠ 0) : (Nat.toDigits 10 n).head? ≠ some '0' := by
  induction n using Nat.strongRecOn with
  | ind n ih =>
    by_cases hlt : n < 10
    · rw [Nat.toDigits_of_lt_base hlt]
      have hdigit : ∀ n < 10, n ≠ 0 → n.digitChar ≠ '0' := by decide
      simpa using hdigit n hlt h
    · rw [Nat.toDigits_of_base_le (by decide) (by omega), head?_toDigits_append]
      exact ih (n / 10) (by omega) (by omega)

theorem isDigit_toDigits {n : Nat} : ∀ c ∈ Nat.toDigits 10 n, c.isDigit = true :=
  fun _ hc => Nat.isDigit_of_mem_toDigits (by decide) (by decide) hc

theorem takes_wholeDigits (atEnd : Cause) (n : Nat) {rest : List Char} (h : EndsNumber rest) :
    Takes (wholeDigits atEnd (Nat.toDigits 10 n ++ rest)) (Nat.toDigits 10 n) rest := by
  have hsome : Takes (someDigits atEnd (Nat.toDigits 10 n ++ rest)) (Nat.toDigits 10 n) rest := by
    cases hdigits : Nat.toDigits 10 n with
    | nil => exact absurd hdigits Nat.toDigits_ne_nil
    | cons d ds =>
      have hall : ∀ c ∈ d :: ds, c.isDigit = true := hdigits ▸ isDigit_toDigits
      have hrun := digitRun_append_of_ends (fun c hc => hall c (List.mem_cons_of_mem _ hc)) h
      rw [List.cons_append, someDigits, if_pos (hall d List.mem_cons_self)]
      simp only [hrun]
      exact ⟨_, rfl⟩
  by_cases hzero : n = 0
  · subst hzero
    have hdigits : Nat.toDigits 10 0 = ['0'] := by decide
    rw [hdigits] at hsome ⊢
    cases rest with
    | nil => exact hsome
    | cons c r =>
      rw [List.singleton_append, wholeDigits, if_neg (by simp [(h c rfl).1])]
      exact ⟨_, rfl⟩
  · rw [wholeDigits.eq_2]
    · exact hsome
    · intro c r heq
      have hhead := congrArg List.head? heq
      rw [head?_toDigits_append] at hhead
      exact head?_toDigits_ne hzero hhead

theorem takes_unsignedNumeral (atEnd : Cause) (negative : Bool) (n : Nat) {rest : List Char}
    (h : EndsNumber rest) : Takes (unsignedNumeral atEnd negative (Nat.toDigits 10 n ++ rest))
      ⟨negative, Nat.toDigits 10 n, none, none⟩ rest := by
  obtain ⟨hshorter, hwhole⟩ := takes_wholeDigits atEnd n h
  have hfraction : fractionPart atEnd rest = .ok (none, ⟨rest, Nat.le_refl _⟩) := by
    unfold fractionPart
    split
    · exact absurd rfl (h '.' rfl).2.1
    · rfl
  have hexponent : exponentPart atEnd rest = .ok (none, ⟨rest, Nat.le_refl _⟩) := by
    unfold exponentPart
    split
    · next c r =>
      have hc := (h c rfl).2.2
      rw [if_neg (by simp [hc])]
    · rfl
  unfold unsignedNumeral
  simp only [hwhole, hfraction, hexponent, bind, Except.bind]
  exact ⟨_, rfl⟩

/-- The characters of a whole number: a sign, if it is below zero, and digits. -/
theorem toList_render_integer (n : Int) :
    (Number.integer n).render.toList =
      if n < 0 then '-' :: Nat.toDigits 10 n.natAbs else Nat.toDigits 10 n.natAbs := by
  rw [Number.render, Int.toString_eq_repr, Int.repr_eq_if]
  by_cases h : n < 0
  · rw [if_neg (by omega), if_pos h, String.toList_append, Nat.toList_repr]
    rw [show (-n).toNat = n.natAbs by omega]
    rfl
  · rw [if_pos (by omega), if_neg h, Nat.toList_repr]
    rw [show n.toNat = n.natAbs by omega]

theorem takes_numeral (atEnd : Cause) (n : Int) {rest : List Char} (h : EndsNumber rest) :
    Takes (numeral atEnd ((Number.integer n).render.toList ++ rest))
      ⟨decide (n < 0), Nat.toDigits 10 n.natAbs, none, none⟩ rest := by
  rw [toList_render_integer]
  by_cases hn : n < 0
  · obtain ⟨hshorter, hunsigned⟩ := takes_unsignedNumeral atEnd true n.natAbs h
    rw [if_pos hn, decide_eq_true hn, List.cons_append, numeral, hunsigned]
    exact ⟨_, rfl⟩
  · rw [if_neg hn, decide_eq_false hn, numeral.eq_2]
    · exact takes_unsignedNumeral atEnd false n.natAbs h
    · intro r heq
      have hhead := congrArg List.head? heq
      rw [head?_toDigits_append] at hhead
      have hdigit := isDigit_toDigits '-' (List.mem_of_mem_head? hhead)
      revert hdigit
      decide

/-- Digits are all absorbed by a number that fits. -/
theorem absorb_of_fits {digits : List Char} {n : Nat} (h : Number.fits (Nat.ofDigitChars 10 digits n)) :
    absorb n digits = (Nat.ofDigitChars 10 digits n, 0) := by
  induction digits generalizing n with
  | nil => rfl
  | cons c digits ih =>
    rw [Nat.ofDigitChars_cons] at h ⊢
    -- a number only grows with its digits, so all numbers on the way fit
    have hgrows (digits : List Char) (m : Nat) : m ≤ Nat.ofDigitChars 10 digits m := by
      induction digits generalizing m with
      | nil => exact Nat.le_refl m
      | cons d digits ih =>
        rw [Nat.ofDigitChars_cons]
        have := ih (10 * m + (d.toNat - '0'.toNat))
        omega
    have hlonger : Number.fits (10 * n + (c.toNat - '0'.toNat) : Nat) = true := by
      have := hgrows digits (10 * n + (c.toNat - '0'.toNat))
      simp only [Number.fits, Bool.and_eq_true, decide_eq_true_eq] at h ⊢
      omega
    rw [absorb, if_pos hlonger]
    exact ih h

theorem toNumber?_integer {n : Int} (h : Number.fits n = true) :
    Numeral.toNumber? ⟨decide (n < 0), Nat.toDigits 10 n.natAbs, none, none⟩ = some (.integer n) := by
  have hvalue : Nat.ofDigitChars 10 (Nat.toDigits 10 n.natAbs) 0 = n.natAbs :=
    Nat.ofDigitChars_toDigits (by decide) (by decide)
  have habsorb : absorb 0 (Nat.toDigits 10 n.natAbs) = (n.natAbs, 0) := by
    rw [absorb_of_fits, hvalue]
    rw [hvalue]
    simp only [Number.fits, Bool.and_eq_true, decide_eq_true_eq] at h ⊢
    omega
  have hsigned : (if decide (n < 0) = true then -(n.natAbs : Int) else n.natAbs) = n := by
    by_cases hn : n < 0
    · rw [if_pos (decide_eq_true hn)]
      omega
    · rw [if_neg (by simp [hn])]
      omega
  have hnonzero : (decide (n < 0) && n.natAbs == 0) = false := by
    by_cases hn : n < 0
    · simp [hn]
      omega
    · simp [hn]
  unfold Numeral.toNumber?
  simp only [habsorb, hsigned, hnonzero, h, Option.isNone_none, beq_self_eq_true, Bool.and_true,
    Bool.not_false, if_true]

/-- The first character of a whole number. -/
theorem exists_render_integer (n : Int) :
    ∃ c r, (Number.integer n).render.toList = c :: r ∧ (c = '-' ∨ c.isDigit = true) := by
  rw [toList_render_integer]
  split
  · exact ⟨_, _, rfl, Or.inl rfl⟩
  · cases hdigits : Nat.toDigits 10 n.natAbs with
    | nil => exact absurd hdigits Nat.toDigits_ne_nil
    | cons d ds =>
      have hd : d ∈ Nat.toDigits 10 n.natAbs := hdigits ▸ List.mem_cons_self
      exact ⟨d, ds, rfl, Or.inr (isDigit_toDigits d hd)⟩

/-- **Whole numbers are read back.** -/
theorem takes_scalar_integer {n : Int} (hfits : Number.fits n = true) {rest : List Char}
    (h : EndsNumber rest) :
    Takes (scalar ((Number.integer n).render.toList ++ rest)) (.number (.integer n)) rest := by
  have hnumeral := takes_numeral (.endOfText .value) n h
  obtain ⟨c, r, hrender, hc⟩ := exists_render_integer n
  have hother : (c ≠ 'n' ∧ c ≠ 't') ∧ c ≠ 'f' ∧ c ≠ '"' := by
    refine ⟨⟨?_, ?_⟩, ?_, ?_⟩ <;> (rintro rfl; revert hc; decide)
  rw [hrender, List.cons_append] at hnumeral ⊢
  obtain ⟨hshorter, hnumeral⟩ := hnumeral
  rw [scalar.eq_6 c _ hother.1.1 hother.1.2 hother.2.1 hother.2.2, if_pos hc, hnumeral]
  simp only [bind, Except.bind, toNumber?_integer hfits]
  exact ⟨_, rfl⟩

end Classwright.Json
