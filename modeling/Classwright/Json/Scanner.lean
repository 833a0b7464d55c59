import Classwright.Json.Fault

/-!
# Scanning tokens

Blanks, words, numbers and strings at the front of a text. A scanner gives what it read together
with the rest of the text, which is shorter: this is what the loops over items and fields end by.
-/

namespace Classwright.Json

/-- What was read from the front of `s`, and the rest. -/
structure Taken (α : Type) (s : List Char) where
  value : α
  rest : List Char
  shorter : rest.length < s.length

namespace Taken

variable {α β : Type} {s t : List Char}

/-- Changes what was read. -/
def map (f : α → β) (x : Taken α s) : Taken β s := ⟨f x.value, x.rest, x.shorter⟩

/-- What was read from a later part of a text was read from the text. -/
def weaken (h : s.length ≤ t.length) (x : Taken α s) : Taken α t :=
  ⟨x.value, x.rest, Nat.lt_of_lt_of_le x.shorter h⟩

/-- The rest of what was read is no longer than the text. -/
theorem rest_le (x : Taken α s) : x.rest.length ≤ s.length := Nat.le_of_lt x.shorter

end Taken

theorem length_le_self (s : List Char) : s.length ≤ s.length := Nat.le_refl _

theorem length_le_cons (c : Char) (s : List Char) : s.length ≤ (c :: s).length := Nat.le_succ _

theorem length_le_of_cons {c : Char} {s t : List Char} (h : (c :: s).length ≤ t.length) :
    s.length ≤ t.length :=
  Nat.le_of_succ_le h

/-- Whether a character may stand between tokens. -/
def isSpace (c : Char) : Bool := c = ' ' || c = '\n' || c = '\t' || c = '\r'

/-- The text after the blanks at its front. -/
def skipSpace (s : List Char) : List Char := s.dropWhile isSpace

theorem length_skipSpace_le (s : List Char) : (skipSpace s).length ≤ s.length :=
  (List.dropWhile_suffix _).length_le

theorem length_lt_of_skipSpace {s r : List Char} {c : Char} (h : skipSpace s = c :: r) :
    r.length < s.length := by
  have := length_skipSpace_le s
  rw [h] at this
  exact this

/-- Reads the given characters; a text that ends before them is cut off inside a value. -/
def word : (expected s : List Char) → Except Cause { r : List Char // r.length ≤ s.length }
  | [], s => .ok ⟨s, Nat.le_refl _⟩
  | _ :: _, [] => .error (.endOfText .value)
  | e :: expected, c :: s =>
    if c = e then do
      let r ← word expected s
      .ok ⟨r.1, Nat.le_succ_of_le r.2⟩
    else .error .wordExpected

/-! ### Numbers -/

/-- A number as it is written. -/
structure Numeral where
  negative : Bool
  whole : List Char
  fraction : Option (List Char)
  exponent : Option (Bool × List Char)
deriving Repr

/-- The value of a run of decimal digits. -/
def digitsValue (digits : List Char) : Nat :=
  digits.foldl (fun n c => 10 * n + (c.toNat - '0'.toNat)) 0

/-- The value of the exponent of a numeral. -/
def Numeral.power (n : Numeral) : Int :=
  match n.exponent with
  | none => 0
  | some (negative, digits) => if negative then -(digitsValue digits : Int) else digitsValue digits

/-- Digits put after those of a number for as long as it keeps to 64 bits: the longer number, and
how many digits are left. -/
def absorb (n : Nat) : List Char → Nat × Nat
  | [] => (n, 0)
  | c :: rest =>
    let longer := 10 * n + (c.toNat - '0'.toNat)
    if Number.fits longer then absorb longer rest else (n, rest.length + 1)

/-- The number that a numeral stands for. A whole number of up to 64 bits stays exact, but minus
zero does not. Of other numbers the leading digits count, and for the rest only how many there
are. None if the number is beyond the largest double. -/
def Numeral.toNumber? (n : Numeral) : Option Number :=
  let (whole, wholeLeft) := absorb 0 n.whole
  let value : Int := if n.negative then -(whole : Int) else whole
  let isWhole := n.fraction.isNone && n.exponent.isNone && wholeLeft == 0
  if isWhole && Number.fits value && !(n.negative && whole == 0) then
    some (.integer value)
  else
    let fraction := n.fraction.getD []
    let (digits, fractionLeft) := absorb whole fraction
    let places : Int := fraction.length - fractionLeft
    (Binary64.ofDecimal n.negative digits (n.power + wholeLeft - places)).map .double

/-- Decimal digits at the front of a text, and the rest. -/
def digitRun (s : List Char) : List Char × List Char :=
  (s.takeWhile Char.isDigit, s.dropWhile Char.isDigit)

theorem digitRun_append (s : List Char) : (digitRun s).1 ++ (digitRun s).2 = s :=
  List.takeWhile_append_dropWhile

theorem length_digitRun_le (s : List Char) : (digitRun s).2.length ≤ s.length := by
  have := congrArg List.length (digitRun_append s)
  simp only [List.length_append] at this
  omega

/-- At least one digit. `atEnd` is the cause reported where the text ends. -/
def someDigits (atEnd : Cause) (s : List Char) : Except Cause (Taken (List Char) s) :=
  match s with
  | [] => .error atEnd
  | c :: r =>
    if c.isDigit then
      .ok ⟨c :: (digitRun r).1, (digitRun r).2, Nat.lt_succ_of_le (length_digitRun_le r)⟩
    else .error .badNumber

/-- The digits before the point: a zero alone, or digits that start with another one. -/
def wholeDigits (atEnd : Cause) (s : List Char) : Except Cause (Taken (List Char) s) :=
  match s with
  | '0' :: c :: r => if c.isDigit then .error .badNumber else .ok ⟨['0'], c :: r, by simp⟩
  | s => someDigits atEnd s

/-- The fraction and its point, if there is one. -/
def fractionPart (atEnd : Cause) (s : List Char) :
    Except Cause (Option (List Char) × { r : List Char // r.length ≤ s.length }) :=
  match s with
  | '.' :: r => do
    let digits ← someDigits atEnd r
    .ok (some digits.value, ⟨digits.rest, Nat.le_succ_of_le digits.rest_le⟩)
  | s => .ok (none, ⟨s, Nat.le_refl _⟩)

/-- The sign of an exponent, and the rest. -/
def exponentSign (s : List Char) : Bool × { r : List Char // r.length ≤ s.length } :=
  match s with
  | '+' :: r => (false, ⟨r, Nat.le_succ _⟩)
  | '-' :: r => (true, ⟨r, Nat.le_succ _⟩)
  | s => (false, ⟨s, Nat.le_refl _⟩)

/-- The exponent and its mark, if there is one. -/
def exponentPart (atEnd : Cause) (s : List Char) :
    Except Cause (Option (Bool × List Char) × { r : List Char // r.length ≤ s.length }) :=
  match s with
  | c :: r =>
    if c = 'e' ∨ c = 'E' then do
      let (negative, signed) := exponentSign r
      let digits ← someDigits atEnd signed.1
      .ok (some (negative, digits.value),
        ⟨digits.rest, Nat.le_succ_of_le (Nat.le_trans digits.rest_le signed.2)⟩)
    else .ok (none, ⟨c :: r, Nat.le_refl _⟩)
  | [] => .ok (none, ⟨[], Nat.le_refl _⟩)

/-- A numeral without its sign. -/
def unsignedNumeral (atEnd : Cause) (negative : Bool) (s : List Char) :
    Except Cause (Taken Numeral s) := do
  let whole ← wholeDigits atEnd s
  let (fraction, afterFraction) ← fractionPart atEnd whole.rest
  let (exponent, rest) ← exponentPart atEnd afterFraction.1
  .ok ⟨⟨negative, whole.value, fraction, exponent⟩, rest.1,
    Nat.lt_of_le_of_lt (Nat.le_trans rest.2 afterFraction.2) whole.shorter⟩

/-- A numeral. `atEnd` is the cause reported where the text ends too early. -/
def numeral (atEnd : Cause) (s : List Char) : Except Cause (Taken Numeral s) :=
  match s with
  | '-' :: r => (unsignedNumeral atEnd true r).map (Taken.weaken (Nat.le_succ _))
  | s => unsignedNumeral atEnd false s

/-! ### Strings -/

/-- The value of a hexadecimal digit. -/
def hexValue? (c : Char) : Option Nat :=
  if c.isDigit then some (c.toNat - '0'.toNat)
  else if 'a' ≤ c ∧ c ≤ 'f' then some (c.toNat - 'a'.toNat + 10)
  else if 'A' ≤ c ∧ c ≤ 'F' then some (c.toNat - 'A'.toNat + 10)
  else none

/-- The length of a text in the bytes of its UTF-8 encoding. -/
def byteLength (s : List Char) : Nat := s.foldr (fun c n => c.utf8Size + n) 0

/-- Four hexadecimal digits. A text of less than four bytes is cut off inside a string. -/
def hexUnit (s : List Char) : Except Cause (Taken Nat s) :=
  match s with
  | a :: b :: c :: d :: r =>
    match hexValue? a, hexValue? b, hexValue? c, hexValue? d with
    | some a, some b, some c, some d =>
      .ok ⟨((a * 16 + b) * 16 + c) * 16 + d, r, by simp; omega⟩
    | _, _, _, _ => .error .badEscape
  | s => if byteLength s < 4 then .error (.endOfText .string) else .error .badEscape

/-- Whether a code unit is the first half of a surrogate pair. -/
def isLeading (n : Nat) : Bool := 0xD800 ≤ n && n ≤ 0xDBFF

/-- Whether a code unit is the second half of a surrogate pair. -/
def isTrailing (n : Nat) : Bool := 0xDC00 ≤ n && n ≤ 0xDFFF

/-- The second half of a surrogate pair after its first half. -/
def trailingUnit (s : List Char) : Except Cause (Taken Nat s) :=
  match s with
  | [] => .error (.endOfText .string)
  | '\\' :: r =>
    match r with
    | [] => .error (.endOfText .string)
    | 'u' :: r => do
      let unit ← hexUnit r
      if isTrailing unit.value then .ok (unit.weaken (by simp; omega)) else .error .loneSurrogate
    | _ => .error .brokenSurrogatePair
  | _ => .error .brokenSurrogatePair

/-- The character of a `\u` escape, read after the letter. -/
def unicodeEscape (s : List Char) : Except Cause (Taken Char s) := do
  let unit ← hexUnit s
  if isTrailing unit.value then .error .loneSurrogate
  else if isLeading unit.value then do
    let second ← trailingUnit unit.rest
    let n := 0x10000 + (unit.value - 0xD800) * 0x400 + (second.value - 0xDC00)
    .ok ⟨Char.ofNat n, second.rest, Nat.lt_trans second.shorter unit.shorter⟩
  else .ok ⟨Char.ofNat unit.value, unit.rest, unit.shorter⟩

/-- The character that stands for itself or is named by one letter after a backslash. -/
def simpleEscape? : Char → Option Char
  | '"' => some '"'
  | '\\' => some '\\'
  | '/' => some '/'
  | 'b' => some '\x08'
  | 'f' => some '\x0c'
  | 'n' => some '\n'
  | 'r' => some '\r'
  | 't' => some '\t'
  | _ => none

/-- The character of an escape, read after the backslash. -/
def escape (s : List Char) : Except Cause (Taken Char s) :=
  match s with
  | [] => .error (.endOfText .string)
  | 'u' :: r => (unicodeEscape r).map (Taken.weaken (Nat.le_succ _))
  | c :: r =>
    match simpleEscape? c with
    | some d => .ok ⟨d, r, Nat.lt_succ_self _⟩
    | none => .error .badEscape

/-- The rest of a string after its opening quote, or after the characters in `done`, last first. -/
def stringFrom {s₀ : List Char} (done : List Char) (s : List Char) (h : s.length ≤ s₀.length) :
    Except Cause (Taken String s₀) :=
  match s with
  | [] => .error (.endOfText .string)
  | '"' :: r => .ok ⟨String.ofList done.reverse, r, h⟩
  | '\\' :: r =>
    match escape r with
    | .error cause => .error cause
    | .ok c => stringFrom (c.value :: done) c.rest (by
        have := c.shorter; simp only [List.length_cons] at h; omega)
  | c :: r =>
    if c.toNat < 0x20 then .error .controlCharacter
    else stringFrom (c :: done) r (length_le_of_cons h)
termination_by s.length
decreasing_by
  · have := c.shorter; simp only [List.length_cons]; omega
  · simp

/-- A string after its opening quote. -/
def string (s : List Char) : Except Cause (Taken String s) := stringFrom [] s (length_le_self s)

/-! ### Values that hold no others -/

/-- A value that is neither list nor object. -/
inductive Scalar where
  | null
  | bool (value : Bool)
  | number (value : Number)
  | text (value : String)
deriving DecidableEq, Repr

/-- A scalar as a JSON value. -/
def Scalar.toJson : Scalar → Json
  | null => .null
  | bool b => .bool b
  | number n => .number n
  | text s => .text s

/-- A scalar as what stands at a place. -/
def Scalar.found : Scalar → Found
  | null => .null
  | bool b => .boolean b
  | number n => .number n
  | text s => .text s

/-- One of the three words, after its first letter. -/
def wordScalar (v : Scalar) (expected s : List Char) (first : Char) :
    Except Cause (Taken Scalar (first :: s)) := do
  let r ← word expected s
  .ok ⟨v, r.1, Nat.lt_succ_of_le r.2⟩

/-- A scalar at the front of a text without blanks before it. -/
def scalar (s : List Char) : Except Cause (Taken Scalar s) :=
  match s with
  | [] => .error (.endOfText .value)
  | 'n' :: r => wordScalar .null ['u', 'l', 'l'] r 'n'
  | 't' :: r => wordScalar (.bool true) ['r', 'u', 'e'] r 't'
  | 'f' :: r => wordScalar (.bool false) ['a', 'l', 's', 'e'] r 'f'
  | '"' :: r => do
    let body ← string r
    .ok ((body.weaken (Nat.le_succ _)).map .text)
  | c :: r =>
    if c = '-' ∨ c.isDigit then do
      let n ← numeral (.endOfText .value) (c :: r)
      match n.value.toNumber? with
      | some value => .ok (n.map fun _ => .number value)
      | none => .error .numberTooLarge
    else .error .valueExpected

/-- Why a text that does not start with what is wanted does not. -/
def mismatch (wanted : Wanted) (s : List Char) : Cause :=
  match s with
  | '[' :: _ => .wrongType .list wanted
  | '{' :: _ => .wrongType .object wanted
  | s =>
    match scalar s with
    | .ok v => .wrongType v.value.found wanted
    | .error cause => cause

end Classwright.Json
