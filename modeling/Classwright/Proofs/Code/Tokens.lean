import Classwright.Text.Lines

/-!
# Tokens of expressions

Text falls into words and signs, with blanks between them where two words would run together. Of two
signs that start alike, the longer one is taken.

* **`tokens`** — the tokens of a text.
* **`tokens_append`** — the tokens of two texts are the tokens of both, if the second one starts with a
  blank or with a sign that ends no longer sign.
-/

namespace Classwright.Code

/-- The signs in expressions, and those that lie on the way to them. -/
inductive Sign where
  | openParen
  | closeParen
  | openBracket
  | closeBracket
  | less
  | greater
  | comma
  | dot
  | question
  | colon
  | not
  | minus
  | plus
  | star
  | equal
  | notEqual
  | or
  | assign
  | bar
deriving DecidableEq, Repr

/-- A token. -/
inductive Token where
  /-- A name, a reserved word or a number. -/
  | word (text : String)
  | sign (sign : Sign)
deriving DecidableEq, Repr

/-- The sign that a character is. -/
def Sign.ofChar? : Char → Option Sign
  | '(' => some openParen
  | ')' => some closeParen
  | '[' => some openBracket
  | ']' => some closeBracket
  | '<' => some less
  | '>' => some greater
  | ',' => some comma
  | '.' => some dot
  | '?' => some question
  | ':' => some colon
  | '!' => some not
  | '-' => some minus
  | '+' => some plus
  | '*' => some star
  | '=' => some assign
  | '|' => some bar
  | _ => none

/-- The sign that two characters are. -/
def Sign.ofPair? (c d : Char) : Option Sign :=
  if c = '=' ∧ d = '=' then some equal
  else if c = '!' ∧ d = '=' then some notEqual
  else if c = '|' ∧ d = '|' then some or
  else none

/-- Whether a character belongs to a word. -/
def isWordChar (c : Char) : Bool := !Text.isBlank c && (Sign.ofChar? c).isNone

/-- The word under way, if there is one. `current` holds its characters, last first. -/
def wordOf (current : List Char) : List Token :=
  if current.isEmpty then [] else [.word (String.ofList current.reverse)]

/-- What a character does that is no part of a longer sign: the tokens that it ends, and the word under
way after it. -/
def scanChar (current : List Char) (c : Char) : List Token × List Char :=
  if Text.isBlank c then (wordOf current, [])
  else
    match Sign.ofChar? c with
    | some s => (wordOf current ++ [.sign s], [])
    | none => ([], c :: current)

/-- The tokens of a text, with a word under way. -/
def tokensFrom (current : List Char) : List Char → List Token
  | [] => wordOf current
  | [c] => (scanChar current c).1 ++ wordOf (scanChar current c).2
  | c :: d :: rest =>
    match Sign.ofPair? c d with
    | some s => wordOf current ++ .sign s :: tokensFrom [] rest
    | none => (scanChar current c).1 ++ tokensFrom (scanChar current c).2 (d :: rest)

/-- The tokens of a text. -/
def tokens (text : List Char) : List Token := tokensFrom [] text

/-! ## One character -/

@[simp] theorem wordOf_nil : wordOf [] = [] := rfl

/-- A character starts no longer sign with what follows it. -/
def StandsAlone (c : Char) (rest : List Char) : Prop := ∀ d ∈ rest.head?, Sign.ofPair? c d = none

theorem standsAlone_of_ne {c : Char} (h : c ≠ '=' ∧ c ≠ '!' ∧ c ≠ '|') (rest : List Char) :
    StandsAlone c rest := by
  intro d _
  simp [Sign.ofPair?, h]

theorem tokensFrom_cons {c : Char} {rest : List Char} (h : StandsAlone c rest) (current : List Char) :
    tokensFrom current (c :: rest) =
      (scanChar current c).1 ++ tokensFrom (scanChar current c).2 rest := by
  cases rest with
  | nil => rfl
  | cons d rest => rw [tokensFrom, h d rfl]

theorem tokensFrom_pair {c d : Char} {s : Sign} (h : Sign.ofPair? c d = some s) (current : List Char)
    (rest : List Char) :
    tokensFrom current (c :: d :: rest) = wordOf current ++ .sign s :: tokens rest := by
  rw [tokensFrom, h, tokens]

theorem tokens_sign {c : Char} {s : Sign} {rest : List Char} (hc : Sign.ofChar? c = some s)
    (hblank : Text.isBlank c = false) (h : StandsAlone c rest) :
    tokens (c :: rest) = .sign s :: tokens rest := by
  rw [tokens, tokensFrom_cons h, scanChar, hblank, hc]
  rfl

theorem tokens_blank (rest : List Char) : tokens (' ' :: rest) = tokens rest := by
  rw [tokens, tokensFrom_cons (standsAlone_of_ne (by decide) rest)]
  rfl

/-! ## Words -/

theorem tokensFrom_wordChar {c : Char} (h : isWordChar c = true) (current rest : List Char) :
    tokensFrom current (c :: rest) = tokensFrom (c :: current) rest := by
  rw [isWordChar, Bool.and_eq_true, Bool.not_eq_true', Option.isNone_iff_eq_none] at h
  have halone : StandsAlone c rest := by
    refine standsAlone_of_ne ⟨?_, ?_, ?_⟩ rest <;>
    · rintro rfl
      exact absurd h.2 (by decide)
  rw [tokensFrom_cons halone, scanChar, h.1, h.2]
  rfl

theorem tokensFrom_word {word : List Char} (h : ∀ c ∈ word, isWordChar c = true)
    (current rest : List Char) :
    tokensFrom current (word ++ rest) = tokensFrom (word.reverse ++ current) rest := by
  induction word generalizing current with
  | nil => rfl
  | cons c word ih =>
    rw [List.forall_mem_cons] at h
    rw [List.cons_append, tokensFrom_wordChar h.1, ih h.2]
    simp

/-- **A word is one token.** -/
theorem tokens_word {word : String} (hne : word ≠ "") (h : ∀ c ∈ word.toList, isWordChar c = true) :
    tokens word.toList = [.word word] := by
  have hcurrent : word.toList.reverse ≠ [] := by simpa using hne
  have hword := tokensFrom_word h [] []
  rw [List.append_nil, List.append_nil] at hword
  rw [tokens, hword, tokensFrom, wordOf, if_neg (by simpa using hcurrent), List.reverse_reverse,
    String.ofList_toList]

/-! ## Texts side by side -/

/-- A text that goes on with no word and no sign: it starts with a blank or with a sign that ends no
longer sign. -/
def Apart : List Char → Prop
  | [] => True
  | c :: _ => isWordChar c = false ∧ c ≠ '=' ∧ c ≠ '|'

theorem standsAlone_apart {b : List Char} (h : Apart b) (c : Char) : StandsAlone c b := by
  intro d hd
  cases b with
  | nil => cases hd
  | cons e rest =>
    cases hd
    simp [Sign.ofPair?, h.2.1, h.2.2]

theorem scanChar_of_not_wordChar {c : Char} (h : isWordChar c = false) (current : List Char) :
    scanChar current c = (wordOf current ++ (scanChar [] c).1, []) := by
  unfold scanChar
  split
  · simp
  · next hblank =>
    split
    · simp
    · next hnone => simp [isWordChar, hblank, hnone] at h

theorem tokensFrom_apart {b : List Char} (h : Apart b) (current : List Char) :
    tokensFrom current b = wordOf current ++ tokens b := by
  have hscan (c : Char) (hc : isWordChar c = false) : (scanChar [] c).2 = [] :=
    congrArg Prod.snd (scanChar_of_not_wordChar hc [])
  unfold tokens
  fun_cases tokensFrom current b with
  | case1 => simp [tokensFrom]
  | case2 c =>
    rw [tokensFrom, hscan c h.1, scanChar_of_not_wordChar h.1]
    simp
  | case3 c d rest s hpair => simp [tokensFrom, hpair]
  | case4 c d rest hpair =>
    rw [tokensFrom, hpair, hscan c h.1, scanChar_of_not_wordChar h.1]
    simp

theorem tokensFrom_append {b : List Char} (h : Apart b) (current a : List Char) :
    tokensFrom current (a ++ b) = tokensFrom current a ++ tokens b := by
  fun_induction tokensFrom current a with
  | case1 current => exact tokensFrom_apart h current
  | case2 current c =>
    -- only the last character of the first text could go on in the second
    rw [List.singleton_append, tokensFrom_cons (standsAlone_apart h c), tokensFrom_apart h,
      List.append_assoc]
  | case3 current c d rest s hpair ih =>
    rw [List.cons_append, List.cons_append, tokensFrom_pair hpair, tokens, ih]
    simp
  | case4 current c d rest hpair ih =>
    rw [List.cons_append, List.cons_append, tokensFrom, hpair, ← List.cons_append, ih]
    simp

/-- **Tokens of texts side by side.** -/
theorem tokens_append {b : List Char} (h : Apart b) (a : List Char) :
    tokens (a ++ b) = tokens a ++ tokens b :=
  tokensFrom_append h [] a

end Classwright.Code
