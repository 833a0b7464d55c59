import Classwright.Text.Words

/-!
# Words hold no marks

The words of a name hold letters and digits only, and changing the case of a letter gives no `_` and
no `@`. So a name that is joined from words is none of the names that have such a mark in them.
-/

namespace Classwright.Text

theorem mem_of_mem_wordsOfPiece {mode : Mode} {current piece word : List Char} {c : Char}
    (h : word ∈ wordsOfPiece mode current piece) (hc : c ∈ word) : c ∈ current ∨ c ∈ piece := by
  fun_induction wordsOfPiece mode current piece with
  | case1 => cases h
  | case2 mode current _ =>
    rw [List.mem_singleton.1 h, List.mem_reverse] at hc
    exact Or.inl hc
  | case3 mode current d =>
    rw [List.mem_singleton.1 h, List.mem_reverse] at hc
    grind
  | case4 mode current d next rest after _ ih =>
    -- the word ends with this letter
    rcases List.mem_cons.1 h with rfl | h
    · rw [List.mem_reverse] at hc
      grind
    · have := ih h
      grind
  | case5 mode current d next rest after _ _ ih =>
    -- the word ended before this letter
    rcases List.mem_cons.1 h with rfl | h
    · exact Or.inl (List.mem_reverse.1 hc)
    · have := ih h
      grind
  | case6 mode current d next rest after _ _ ih =>
    have := ih h
    grind

theorem isAlphanumeric_of_mem_pieces {current text piece : List Char} {c : Char}
    (hcurrent : ∀ c ∈ current, isAlphanumeric c = true) (h : piece ∈ pieces current text)
    (hc : c ∈ piece) : isAlphanumeric c = true := by
  induction text generalizing current with
  | nil =>
    rw [List.mem_singleton.1 h, List.mem_reverse] at hc
    exact hcurrent c hc
  | cons d text ih =>
    rw [pieces] at h
    split at h
    · next hd => exact ih (List.forall_mem_cons.2 ⟨hd, hcurrent⟩) h
    · rcases List.mem_cons.1 h with rfl | h
      · exact hcurrent c (List.mem_reverse.1 hc)
      · exact ih (fun _ hmem => absurd hmem List.not_mem_nil) h

/-- **Words hold letters and digits only.** -/
theorem isAlphanumeric_of_mem_words {s : String} {word : List Char} {c : Char} (h : word ∈ words s)
    (hc : c ∈ word) : isAlphanumeric c = true := by
  obtain ⟨piece, hpiece, hword⟩ := List.mem_flatMap.1 h
  rcases mem_of_mem_wordsOfPiece hword hc with hnone | hmem
  · cases hnone
  · exact isAlphanumeric_of_mem_pieces (fun _ hnone => absurd hnone List.not_mem_nil) hpiece hmem

/-- A run of capitals has begun once a capital was read, so no word is empty. -/
theorem ne_nil_of_mem_wordsOfPiece {mode : Mode} {current piece word : List Char}
    (hmode : mode = .upper → current ≠ []) (h : word ∈ wordsOfPiece mode current piece) :
    word ≠ [] := by
  fun_induction wordsOfPiece mode current piece with
  | case1 => cases h
  | case2 mode current hne =>
    rw [List.mem_singleton.1 h]
    simpa using hne
  | case3 mode current c =>
    rw [List.mem_singleton.1 h]
    simp
  | case4 mode current c next rest after _ ih =>
    rcases List.mem_cons.1 h with rfl | h
    · simp
    · refine ih (fun hupper => ?_) h
      cases hupper
  | case5 mode current c next rest after _ hupper ih =>
    rcases List.mem_cons.1 h with rfl | h
    · simpa using hmode hupper.1
    · exact ih (fun _ => List.cons_ne_nil _ _) h
  | case6 mode current c next rest after _ _ ih => exact ih (fun _ => List.cons_ne_nil _ _) h

theorem ne_nil_of_mem_words {s : String} {word : List Char} (h : word ∈ words s) : word ≠ [] := by
  obtain ⟨piece, -, hword⟩ := List.mem_flatMap.1 h
  refine ne_nil_of_mem_wordsOfPiece (fun hupper => ?_) hword
  cases hupper

/-! ## Letter case -/

/-- A case mapping that leads to a code point from no other one: no sequence has it, and no stretch
covers the code point that would be moved to it. -/
def Avoids (mark : Nat) (stretches : List (Stretch × Int)) (sequences : List (Nat × List Nat)) : Bool :=
  sequences.all (fun e => !e.2.contains mark) &&
    stretches.all fun e => e.1.first + e.2 > mark || e.1.last + e.2 < mark

theorem eq_toNat_of_ofNat {n : Nat} {c : Char} (hc : c.toNat ≠ 0) (h : Char.ofNat n = c) :
    n = c.toNat := by
  by_cases hvalid : n.isValidChar
  · rw [Char.ofNat, dif_pos hvalid] at h
    rw [← h]
    rfl
  · rw [Char.ofNat, dif_neg hvalid] at h
    exact absurd (congrArg Char.toNat h).symm hc

theorem not_mem_mapCase {mark : Char} (hmark : mark.toNat ≠ 0) {stretches : List (Stretch × Int)}
    {sequences : List (Nat × List Nat)} (h : Avoids mark.toNat stretches sequences = true) {c : Char}
    (hc : c ≠ mark) : mark ∉ mapCase stretches sequences c := by
  rw [Avoids, Bool.and_eq_true, List.all_eq_true, List.all_eq_true] at h
  obtain ⟨hsequences, hstretches⟩ := h
  intro hmem
  unfold mapCase at hmem
  split at hmem
  · next image hlookup =>
    obtain ⟨n, hn, himage⟩ := List.mem_map.1 hmem
    obtain ⟨front, back, rfl, -⟩ := List.lookup_eq_some_iff.1 hlookup
    have havoids := hsequences (c.toNat, image) (by simp)
    rw [eq_toNat_of_ofNat hmark himage] at hn
    simp [hn] at havoids
  · split at hmem
    · next stretch distance hfind =>
      have himage := eq_toNat_of_ofNat hmark (List.mem_singleton.1 hmem).symm
      have hholds := List.find?_some hfind
      have havoids := hstretches _ (List.mem_of_find?_eq_some hfind)
      simp only [Stretch.holds, Bool.and_eq_true, Bool.or_eq_true, decide_eq_true_eq] at hholds havoids
      omega
    · exact hc (List.mem_singleton.1 hmem).symm

/-- A mark is no letter or digit, and no change of case leads to it. -/
structure IsMark (mark : Char) : Prop where
  notAlphanumeric : isAlphanumeric mark = false
  lower : ∀ c ≠ mark, mark ∉ toLowercase c
  upper : ∀ c ≠ mark, mark ∉ toUppercase c

theorem isMark_underscore : IsMark '_' where
  notAlphanumeric := by decide +kernel
  lower _ hc := not_mem_mapCase (by decide) (by decide +kernel) hc
  upper _ hc := not_mem_mapCase (by decide) (by decide +kernel) hc

theorem isMark_at : IsMark '@' where
  notAlphanumeric := by decide +kernel
  lower _ hc := not_mem_mapCase (by decide) (by decide +kernel) hc
  upper _ hc := not_mem_mapCase (by decide) (by decide +kernel) hc

namespace IsMark

variable {mark : Char} {word : List Char}

theorem not_mem_word {s : String} (hmark : IsMark mark) (h : word ∈ words s) : mark ∉ word := by
  intro hmem
  have hletter := isAlphanumeric_of_mem_words h hmem
  rw [hmark.notAlphanumeric] at hletter
  cases hletter

theorem not_mem_lowered (hmark : IsMark mark) (h : mark ∉ word) : mark ∉ lowered word := by
  fun_induction lowered word with
  | case1 => exact List.not_mem_nil
  | case2 =>
    -- a final sigma is a letter
    intro hsigma
    have hletter : isAlphanumeric 'ς' = true := by decide +kernel
    rw [← List.mem_singleton.1 hsigma, hmark.notAlphanumeric] at hletter
    cases hletter
  | case3 c rest _ ih =>
    rw [List.mem_cons, not_or] at h
    rw [List.mem_append, not_or]
    exact ⟨hmark.lower c (Ne.symm h.1), ih h.2⟩

theorem not_mem_capitalized (hmark : IsMark mark) (h : mark ∉ word) : mark ∉ capitalized word := by
  cases word with
  | nil => exact List.not_mem_nil
  | cons c rest =>
    rw [List.mem_cons, not_or] at h
    rw [capitalized, List.mem_append, not_or]
    exact ⟨hmark.upper c (Ne.symm h.1), hmark.not_mem_lowered h.2⟩

/-- **Joined names hold no mark.** -/
theorem not_mem_lowerCamel (hmark : IsMark mark) (s : String) : mark ∉ (lowerCamel s).toList := by
  have hword (word) (h : word ∈ words s) : mark ∉ word := hmark.not_mem_word h
  unfold lowerCamel
  split
  · exact List.not_mem_nil
  · next first rest hwords =>
    rw [hwords, List.forall_mem_cons] at hword
    rw [String.toList_ofList, List.mem_append, not_or]
    refine ⟨hmark.not_mem_lowered hword.1, fun hmem => ?_⟩
    obtain ⟨word, hrest, hmem⟩ := List.mem_flatMap.1 hmem
    exact hmark.not_mem_capitalized (hword.2 word hrest) hmem

end IsMark

/-! ## First letters -/

theorem mapCase_ne_nil {stretches : List (Stretch × Int)} {sequences : List (Nat × List Nat)}
    (h : sequences.all (fun e => !e.2.isEmpty) = true) (c : Char) :
    mapCase stretches sequences c ≠ [] := by
  unfold mapCase
  split
  · next image hlookup =>
    obtain ⟨front, back, rfl, -⟩ := List.lookup_eq_some_iff.1 hlookup
    have himage := List.all_eq_true.1 h (c.toNat, image) (by simp)
    simpa using himage
  · split <;> exact List.cons_ne_nil _ _

theorem lowered_ne_nil {word : List Char} (h : word ≠ []) : lowered word ≠ [] := by
  have hlower (c : Char) : toLowercase c ≠ [] := mapCase_ne_nil (by decide +kernel) c
  fun_cases lowered word with
  | case1 => exact absurd rfl h
  | case2 => exact List.cons_ne_nil _ _
  | case3 c rest _ => exact List.append_ne_nil_of_left_ne_nil (hlower c) _

/-- One of the letters from `A` to `Z`. -/
def basicCapitals : List Char := (List.range 26).map fun n => Char.ofNat (0x41 + n)

theorem not_mem_toLowercase {c : Char} (hc : c ∈ basicCapitals) (d : Char) : c ∉ toLowercase d := by
  have hcapitals : (basicCapitals.all fun c => decide (c.toNat ≠ 0 ∧
      Avoids c.toNat toLowerStretches toLowerSequences = true ∧ c ∉ toLowercase c)) = true := by
    decide +kernel
  obtain ⟨hne, havoids, hself⟩ := of_decide_eq_true (List.all_eq_true.1 hcapitals c hc)
  by_cases hd : d = c
  · rw [hd]
    exact hself
  · exact not_mem_mapCase hne havoids hd

theorem not_mem_lowered {c : Char} (hc : c ∈ basicCapitals) (word : List Char) : c ∉ lowered word := by
  fun_induction lowered word with
  | case1 => exact List.not_mem_nil
  | case2 =>
    intro hsigma
    rw [List.mem_singleton.1 hsigma] at hc
    revert hc
    decide +kernel
  | case3 d rest _ ih =>
    rw [List.mem_append, not_or]
    exact ⟨not_mem_toLowercase hc d, ih⟩

/-- **A name with a lowercase first word starts with no capital.** -/
theorem head?_lowerCamel_ne {c : Char} (hc : c ∈ basicCapitals) (s : String) :
    (lowerCamel s).toList.head? ≠ some c := by
  unfold lowerCamel
  split
  · exact fun hnone => nomatch hnone
  · next first rest hwords =>
    have hfirst : first ≠ [] := ne_nil_of_mem_words (hwords ▸ List.mem_cons_self)
    obtain ⟨d, tail, hlowered⟩ := List.exists_cons_of_ne_nil (lowered_ne_nil hfirst)
    have hmem := not_mem_lowered hc first
    rw [hlowered, List.mem_cons, not_or] at hmem
    rw [String.toList_ofList, hlowered, List.cons_append, List.head?_cons, ne_eq, Option.some.injEq]
    exact Ne.symm hmem.1

end Classwright.Text
