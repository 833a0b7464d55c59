import Classwright.Json.Scanner

/-!
# Skipping values

A value that nobody asked for is skipped without being read: its numbers may be of any size, its
escapes may stand for no character, and its lists and objects may nest to any depth. Only the
brackets that are still open are remembered.
-/

namespace Classwright.Json

/-- An open list or object. -/
inductive Bracket where
  | list
  | object
deriving DecidableEq, Repr

/-- The construct that is cut off when a text ends inside a bracket. -/
def Bracket.construct : Bracket → Construct
  | list => .list
  | object => .object

/-- The cause when something else stands where a separator or the end is due. -/
def Bracket.separatorExpected : Bracket → Cause
  | list => .itemSeparatorExpected
  | object => .fieldSeparatorExpected

/-- The character that closes a bracket. -/
def Bracket.closer : Bracket → Char
  | list => ']'
  | object => '}'

/-- The rest of a text after an escape; only the hexadecimal digits are checked. -/
def skipEscape (s : List Char) : Except Cause { r : List Char // r.length ≤ s.length } :=
  match s with
  | [] => .error (.endOfText .string)
  | 'u' :: r => do
    let unit ← hexUnit r
    .ok ⟨unit.rest, Nat.le_succ_of_le unit.rest_le⟩
  | c :: r => if (simpleEscape? c).isSome then .ok ⟨r, length_le_cons c r⟩ else .error .badEscape

/-- The rest of a text after a string whose opening quote has been read. -/
def skipStringFrom {s₀ : List Char} (s : List Char) (h : s.length ≤ s₀.length) :
    Except Cause { r : List Char // r.length ≤ s₀.length } :=
  match s with
  | [] => .error (.endOfText .string)
  | '"' :: r => .ok ⟨r, Nat.le_of_succ_le h⟩
  | '\\' :: r =>
    match skipEscape r with
    | .error cause => .error cause
    | .ok r' => skipStringFrom r'.1 (by
        have := r'.2; simp only [List.length_cons] at h; omega)
  | c :: r =>
    if c.toNat < 0x20 then .error .controlCharacter
    else skipStringFrom r (length_le_of_cons h)
termination_by s.length
decreasing_by
  · have := r'.2; simp only [List.length_cons]; omega
  · simp

/-- The rest of a text after a string whose opening quote has been read. -/
def skipString (s : List Char) : Except Cause { r : List Char // r.length ≤ s.length } :=
  skipStringFrom s (length_le_self s)

/-- The rest of a text after a scalar whose first character `c` has been read. -/
def skipScalar (c : Char) (s : List Char) : Except Cause { r : List Char // r.length ≤ s.length } :=
  match c with
  | 'n' => word ['u', 'l', 'l'] s
  | 't' => word ['r', 'u', 'e'] s
  | 'f' => word ['a', 'l', 's', 'e'] s
  | '"' => skipString s
  | c =>
    if c = '-' ∨ c.isDigit then do
      let n ← numeral .badNumber (c :: s)
      .ok ⟨n.rest, Nat.le_of_lt_succ n.shorter⟩
    else .error .valueExpected

/-- The rest of a text after a key and its colon. -/
def skipKey (s : List Char) : Except Cause { r : List Char // r.length ≤ s.length } :=
  match h : skipSpace s with
  | [] => .error (.endOfText .object)
  | '"' :: r => do
    let key ← skipString r
    match h' : skipSpace key.1 with
    | [] => .error (.endOfText .object)
    | ':' :: r' =>
      .ok ⟨r', by
        have := length_lt_of_skipSpace h
        have := length_lt_of_skipSpace h'
        have := key.2
        omega⟩
    | _ => .error .colonExpected
  | _ => .error .keyExpected

mutual

/-- Skips a value inside the open brackets, innermost first, and then what they still hold. -/
def skipItem {s₀ : List Char} (opened : List Bracket) (s : List Char) (h : s.length ≤ s₀.length) :
    Except Cause (Taken Unit s₀) :=
  match hs : skipSpace s with
  | [] => .error (.endOfText .value)
  | '[' :: r => skipRest true (.list :: opened) r (by have := length_lt_of_skipSpace hs; omega)
  | '{' :: r => skipRest true (.object :: opened) r (by have := length_lt_of_skipSpace hs; omega)
  | c :: r =>
    match skipScalar c r with
    | .error cause => .error cause
    | .ok r' => skipRest false opened r'.1 (by
        have := length_lt_of_skipSpace hs; have := r'.2; omega)
termination_by (s.length, 0)
decreasing_by
  · exact Prod.Lex.left _ _ (length_lt_of_skipSpace hs)
  · exact Prod.Lex.left _ _ (length_lt_of_skipSpace hs)
  · exact Prod.Lex.left _ _ (by have := length_lt_of_skipSpace hs; have := r'.2; omega)

/-- Skips what the open brackets still hold. `fresh` says that the innermost one has just been
opened, so that a value may follow without a separator. -/
def skipRest {s₀ : List Char} (fresh : Bool) (opened : List Bracket) (s : List Char)
    (h : s.length < s₀.length) : Except Cause (Taken Unit s₀) :=
  match opened with
  | [] => .ok ⟨(), s, h⟩
  | bracket :: outer =>
    match hs : skipSpace s with
    | [] => .error (.endOfText bracket.construct)
    | c :: r =>
      if c = bracket.closer then
        skipRest false outer r (by have := length_lt_of_skipSpace hs; omega)
      else if fresh then
        match bracket with
        | .list => skipItem opened s (Nat.le_of_lt h)
        | .object =>
          match skipKey s with
          | .error cause => .error cause
          | .ok r' => skipItem opened r'.1 (by have := r'.2; omega)
      else if c = ',' then
        match bracket with
        | .list => skipItem opened r (by have := length_lt_of_skipSpace hs; omega)
        | .object =>
          match skipKey r with
          | .error cause => .error cause
          | .ok r' => skipItem opened r'.1 (by
              have := length_lt_of_skipSpace hs; have := r'.2; omega)
      else .error bracket.separatorExpected
termination_by (s.length, 1)
decreasing_by
  · exact Prod.Lex.left _ _ (length_lt_of_skipSpace hs)
  · exact Prod.Lex.right _ (by decide)
  · rcases Nat.lt_or_eq_of_le r'.2 with hlt | heq
    · exact Prod.Lex.left _ _ hlt
    · rw [heq]; exact Prod.Lex.right _ (by decide)
  · exact Prod.Lex.left _ _ (length_lt_of_skipSpace hs)
  · exact Prod.Lex.left _ _ (by have := length_lt_of_skipSpace hs; have := r'.2; omega)

end

/-- Skips one value. -/
def skipValue (s : List Char) : Except Cause (Taken Unit s) := skipItem [] s (length_le_self s)

end Classwright.Json
