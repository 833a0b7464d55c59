import Classwright.Proofs.Text.Words

/-!
# Names that keep their case

Joining the words of a name again does not give the name back: a run of capitals is one word, so
`HTTPServer` becomes `HttpServer`, and the one-letter words of `a b c` become `ABC` first and `Abc`
after that. A name made of capital words keeps its case. A capital word is a capital letter and at
least one lowercase letter, with lowercase letters and digits after it.

* **`wordsOfPiece_capitalWord`** — the split: a capital word in front of a text is its first word.
* **`upperCamel_eq_self`** — so a name made of capital words falls into them, and each is as it was.
* **`Regular.eq_of_lowerCamel_eq`** — with a lowercase first word such names still stay apart, if their
  first letters have lowercase letters of their own.
-/

namespace Classwright.Text

/-- A capital letter whose uppercase form is itself. -/
def isCapital (c : Char) : Bool := isAlphanumeric c && isUppercase c && toUppercase c == [c]

/-- A letter or digit that is no capital and whose lowercase form is itself. -/
def isSmall (c : Char) : Bool := isAlphanumeric c && !isUppercase c && toLowercase c == [c]

def isCapitalWord : List Char → Bool
  | c :: d :: rest => isCapital c && isLowercase d && (d :: rest).all isSmall
  | _ => false

/-- A name that is made of capital words. -/
def CapitalWords (s : String) : Prop :=
  ∃ ws : List (List Char), (∀ w ∈ ws, isCapitalWord w = true) ∧ s.toList = ws.flatten

theorem isCapital_iff {c : Char} :
    isCapital c = true ↔ isAlphanumeric c = true ∧ isUppercase c = true ∧ toUppercase c = [c] := by
  simp [isCapital, and_assoc]

theorem isSmall_iff {c : Char} :
    isSmall c = true ↔ isAlphanumeric c = true ∧ isUppercase c = false ∧ toLowercase c = [c] := by
  simp [isSmall, and_assoc]

theorem isCapitalWord_iff {w : List Char} :
    isCapitalWord w = true ↔ ∃ c d rest, w = c :: d :: rest ∧ isCapital c = true ∧
      isLowercase d = true ∧ ∀ x ∈ d :: rest, isSmall x = true := by
  unfold isCapitalWord
  split
  · next c d rest =>
    rw [Bool.and_eq_true, Bool.and_eq_true, List.all_eq_true]
    constructor
    · rintro ⟨⟨hc, hd⟩, hall⟩
      exact ⟨c, d, rest, rfl, hc, hd, hall⟩
    · rintro ⟨c', d', rest', heq, hc, hd, hall⟩
      cases heq
      exact ⟨⟨hc, hd⟩, hall⟩
  · next hshort =>
    constructor
    · intro h
      cases h
    · rintro ⟨c, d, rest, rfl, -⟩
      exact absurd rfl (hshort c d rest)

/-! ## Splitting a name into its words -/

/-- What can follow a word without a mark between them. -/
def StartsWord : List Char → Prop
  | [] => True
  | c :: _ => isUppercase c = true

/-- A word that has got to its lowercase letters ends before the next capital. The induction is on the
letters left, and the mode stays `lower` because none of them is a capital. -/
theorem wordsOfPiece_lower {tail : List Char} (htail : StartsWord tail) {rest : List Char}
    (hrest : ∀ x ∈ rest, isSmall x = true) (hne : rest ≠ []) (current : List Char) :
    wordsOfPiece .lower current (rest ++ tail) =
      (current.reverse ++ rest) :: wordsOfPiece .boundary [] tail := by
  induction rest generalizing current with
  | nil => exact absurd rfl hne
  | cons x rest ih =>
    have hx := isSmall_iff.1 (hrest x List.mem_cons_self)
    have hafter : Mode.lower.after x = .lower := by
      unfold Mode.after
      split
      · rfl
      · rw [hx.2.1]
        rfl
    cases rest with
    | nil =>
      cases tail with
      | nil => simp [wordsOfPiece]
      | cons u tail =>
        have hu : isUppercase u = true := htail
        simp [wordsOfPiece, hafter, hu]
    | cons y rest =>
      have hy := isSmall_iff.1 (hrest y (by simp))
      have ih := ih (fun z hz => hrest z (List.mem_cons_of_mem _ hz)) (by simp) (x :: current)
      rw [List.cons_append, List.cons_append, wordsOfPiece]
      simp only [hafter, hy.2.1, Bool.false_eq_true, and_false, if_false, reduceCtorEq, false_and]
      rw [← List.cons_append, ih]
      simp

theorem wordsOfPiece_capitalWord {w tail : List Char} (hw : isCapitalWord w = true)
    (htail : StartsWord tail) :
    wordsOfPiece .boundary [] (w ++ tail) = w :: wordsOfPiece .boundary [] tail := by
  obtain ⟨c, d, rest, rfl, hc, hd, hall⟩ := isCapitalWord_iff.1 hw
  have hsmall := isSmall_iff.1 (hall d List.mem_cons_self)
  have hafter (mode : Mode) : mode.after d = .lower := by
    rw [Mode.after, hd]
    rfl
  -- the capital starts the word, since no letter before it has a case
  have hcapital : wordsOfPiece .boundary [] (c :: d :: rest ++ tail) =
      wordsOfPiece (Mode.boundary.after c) [c] (d :: rest ++ tail) := by
    rw [List.cons_append, List.cons_append, wordsOfPiece]
    simp [hsmall.2.1]
  rw [hcapital]
  -- from the first lowercase letter on the mode is `lower`
  cases rest with
  | nil =>
    cases tail with
    | nil => simp [wordsOfPiece]
    | cons u tail =>
      have hu : isUppercase u = true := htail
      simp [wordsOfPiece, hafter, hu]
  | cons y rest =>
    have hy := isSmall_iff.1 (hall y (by simp))
    rw [List.cons_append, List.cons_append, wordsOfPiece]
    simp only [hafter, hy.2.1, hsmall.2.1, Bool.false_eq_true, and_false, false_and, if_false]
    rw [← List.cons_append,
      wordsOfPiece_lower htail (fun z hz => hall z (List.mem_cons_of_mem _ hz)) (by simp)]
    simp

theorem startsWord_flatten {ws : List (List Char)} (h : ∀ w ∈ ws, isCapitalWord w = true) :
    StartsWord ws.flatten := by
  cases ws with
  | nil => trivial
  | cons w ws =>
    obtain ⟨c, d, rest, rfl, hc, -⟩ := isCapitalWord_iff.1 (h w List.mem_cons_self)
    exact (isCapital_iff.1 hc).2.1

theorem wordsOfPiece_flatten {ws : List (List Char)} (h : ∀ w ∈ ws, isCapitalWord w = true) :
    wordsOfPiece .boundary [] ws.flatten = ws := by
  induction ws with
  | nil => rfl
  | cons w ws ih =>
    have hws : ∀ w' ∈ ws, isCapitalWord w' = true := fun w' hw' => h w' (List.mem_cons_of_mem _ hw')
    rw [List.flatten_cons,
      wordsOfPiece_capitalWord (h w List.mem_cons_self) (startsWord_flatten hws), ih hws]

theorem pieces_eq_singleton {text : List Char} (h : ∀ c ∈ text, isAlphanumeric c = true)
    (current : List Char) : pieces current text = [current.reverse ++ text] := by
  induction text generalizing current with
  | nil => simp [pieces]
  | cons c text ih =>
    rw [pieces, if_pos (h c List.mem_cons_self),
      ih (fun d hd => h d (List.mem_cons_of_mem _ hd))]
    simp

theorem isAlphanumeric_of_capitalWord {w : List Char} (hw : isCapitalWord w = true) :
    ∀ c ∈ w, isAlphanumeric c = true := by
  obtain ⟨c, d, rest, rfl, hc, -, hall⟩ := isCapitalWord_iff.1 hw
  intro x hx
  rcases List.mem_cons.1 hx with rfl | hx
  · exact (isCapital_iff.1 hc).1
  · exact (isSmall_iff.1 (hall x hx)).1

/-! ## Joining the words again -/

theorem lowered_eq_self {w : List Char} (h : ∀ c ∈ w, isSmall c = true) : lowered w = w := by
  fun_induction lowered w with
  | case1 => rfl
  | case2 =>
    -- a capital sigma is no small letter
    have hsigma := (isSmall_iff.1 (h 'Σ' List.mem_cons_self)).2.1
    revert hsigma
    decide +kernel
  | case3 c rest _ ih =>
    rw [(isSmall_iff.1 (h c List.mem_cons_self)).2.2,
      ih fun d hd => h d (List.mem_cons_of_mem _ hd)]
    rfl

theorem capitalized_eq_self {w : List Char} (hw : isCapitalWord w = true) : capitalized w = w := by
  obtain ⟨c, d, rest, rfl, hc, -, hall⟩ := isCapitalWord_iff.1 hw
  rw [capitalized, (isCapital_iff.1 hc).2.2, lowered_eq_self hall]
  rfl

theorem flatMap_capitalized {ws : List (List Char)} (h : ∀ w ∈ ws, isCapitalWord w = true) :
    ws.flatMap capitalized = ws.flatten := by
  rw [List.flatMap_def, List.map_congr_left fun w hw => capitalized_eq_self (h w hw), List.map_id']

/-- A name made of capital words falls into them. -/
theorem words_of_capitalWords {s : String} {ws : List (List Char)}
    (hws : ∀ w ∈ ws, isCapitalWord w = true) (hs : s.toList = ws.flatten) : words s = ws := by
  have halnum : ∀ c ∈ ws.flatten, isAlphanumeric c = true := by
    intro c hc
    obtain ⟨w, hw, hc⟩ := List.mem_flatten.1 hc
    exact isAlphanumeric_of_capitalWord (hws w hw) c hc
  unfold words
  rw [hs, pieces_eq_singleton halnum []]
  simp [wordsOfPiece_flatten hws]

/-- **A name made of capital words keeps its case.** -/
theorem upperCamel_eq_self {s : String} (h : CapitalWords s) : upperCamel s = s := by
  obtain ⟨ws, hws, hs⟩ := h
  rw [upperCamel, words_of_capitalWords hws hs, flatMap_capitalized hws, ← hs, String.ofList_toList]

/-! ## A lowercase first word -/

/-- A capital letter and a lowercase one that stand for each other. The sign for kelvin has the lowercase
letter of `K`, and the letters of mathematics have none. -/
structure Paired (c d : Char) : Prop where
  lower : toLowercase c = [d]
  notCapital : isUppercase d = false
  upper : toUppercase d = [c]

/-- A name that is made of capital words and starts with a letter that has a lowercase one of its own. -/
def Regular (s : String) : Prop :=
  CapitalWords s ∧ ∃ c d tail, s.toList = c :: tail ∧ Paired c d

theorem lowered_capitalWord {w : List Char} {c d : Char} (hw : isCapitalWord (c :: w) = true)
    (hlower : toLowercase c = [d]) : lowered (c :: w) = d :: w := by
  obtain ⟨c', e, rest, heq, -, -, hall⟩ := isCapitalWord_iff.1 hw
  cases heq
  have hsplit : lowered (c :: e :: rest) = toLowercase c ++ lowered (e :: rest) := by
    rw [lowered]
    simp
  rw [hsplit, hlower, lowered_eq_self hall]
  rfl

/-- **Only the first letter changes** where a name gets a lowercase first word. -/
theorem Regular.exists_toList {s : String} (h : Regular s) :
    ∃ c d tail, s.toList = c :: tail ∧ (lowerCamel s).toList = d :: tail ∧ Paired c d ∧
      isUppercase c = true := by
  obtain ⟨⟨ws, hws, hs⟩, c, d, tail, hstart, hpaired⟩ := h
  have hwords := words_of_capitalWords hws hs
  rw [hs] at hstart
  cases ws with
  | nil => cases hstart
  | cons w ws =>
    obtain ⟨hw, hrest⟩ := List.forall_mem_cons.1 hws
    obtain ⟨c', e, rest, rfl, hc, -, -⟩ := isCapitalWord_iff.1 hw
    rw [List.flatten_cons, List.cons_append, List.cons.injEq] at hstart
    obtain ⟨rfl, rfl⟩ := hstart
    refine ⟨c', d, _, hs, ?_, hpaired, (isCapital_iff.1 hc).2.1⟩
    unfold lowerCamel
    rw [hwords]
    dsimp only
    rw [String.toList_ofList, lowered_capitalWord hw hpaired.lower, flatMap_capitalized hrest]
    rfl

/-- **Regular names stay apart.** -/
theorem Regular.eq_of_lowerCamel_eq {s t : String} (hs : Regular s) (ht : Regular t)
    (h : lowerCamel s = lowerCamel t) : s = t := by
  obtain ⟨c, d, tail, hcs, hds, hpaired, -⟩ := hs.exists_toList
  obtain ⟨c', d', tail', hct, hdt, hpaired', -⟩ := ht.exists_toList
  rw [h, hdt] at hds
  obtain ⟨rfl, rfl⟩ := List.cons.inj hds
  have hsame : [c] = [c'] := hpaired.upper.symm.trans hpaired'.upper
  cases hsame
  exact String.toList_inj.1 (hcs.trans hct.symm)

end Classwright.Text
