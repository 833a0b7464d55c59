import Classwright.Disk.Path

/-!
# Patterns of file names

In a pattern, `?` stands for any character, `*` for any number of them, and brackets for one of a
set of characters or, after `!`, for any other one. As a part of a path of its own, `**` stands for
any number of directories.
-/

namespace Classwright.Glob

/-- What a text of a pattern stands for. -/
inductive Token where
  | char (c : Char)
  | anyChar
  | anySequence
  /-- Any number of directories. -/
  | anyDirectories
  /-- One character in one of the ranges. -/
  | within (ranges : List (Char × Char))
  /-- One character in none of the ranges. -/
  | except (ranges : List (Char × Char))
deriving DecidableEq, Repr, Inhabited

/-- Why a text is no pattern. -/
inductive PatternCause where
  | wildcards
  | recursiveWildcards
  | range
deriving DecidableEq, Repr

/-- A text that is no pattern, and where it fails. -/
structure PatternFault where
  position : Nat
  cause : PatternCause
deriving DecidableEq, Repr

/-- The wording of a fault. -/
def PatternFault.message (f : PatternFault) : String :=
  let reason :=
    match f.cause with
    | .wildcards => "wildcards are either regular `*` or recursive `**`"
    | .recursiveWildcards => "recursive wildcards must form a single path component"
    | .range => "invalid range pattern"
  "Pattern syntax error near position " ++ toString f.position ++ ": " ++ reason

/-- Whether a path has to be looked up as a pattern. -/
def isPattern (s : String) : Bool := s.toList.any fun c => c = '*' || c = '?' || c = '['

/-! ### Reading patterns -/

/-- The ranges between brackets. A single character is a range, too. -/
def ranges : List Char → List (Char × Char)
  | a :: '-' :: b :: rest => (a, b) :: ranges rest
  | a :: rest => (a, a) :: ranges rest
  | [] => []

/-- What is before the first closing bracket, and what is after it. The first character never
closes. -/
def bracketed : List Char → Option (List Char × List Char)
  | [] => none
  | first :: rest =>
    if rest.contains ']' then
      some (first :: rest.takeWhile (· ≠ ']'), (rest.dropWhile (· ≠ ']')).drop 1)
    else none

/-- A token for one character, where a bracket opens a set: the token and what follows it. -/
def bracketToken? : List Char → Option (Token × List Char)
  | '!' :: rest => (bracketed rest).map fun (set, rest) => (.except (ranges set), rest)
  | rest => (bracketed rest).map fun (set, rest) => (.within (ranges set), rest)

theorem length_lt_of_bracketed {s set rest : List Char} (h : bracketed s = some (set, rest)) :
    rest.length < s.length := by
  match s, h with
  | first :: after, h =>
    simp only [bracketed] at h
    split at h
    · simp only [Option.some.injEq, Prod.mk.injEq] at h
      have := (List.dropWhile_sublist (l := after) (· ≠ ']')).length_le
      rw [← h.2, List.length_drop, List.length_cons]
      omega
    · simp at h

theorem length_lt_of_bracketToken? {s rest : List Char} {token : Token}
    (h : bracketToken? s = some (token, rest)) : rest.length < s.length := by
  unfold bracketToken? at h
  split at h
  · obtain ⟨found, hfound, heq⟩ := Option.map_eq_some_iff.mp h
    have := length_lt_of_bracketed hfound
    simp only [Prod.mk.injEq] at heq
    rw [← heq.2, List.length_cons]
    omega
  · obtain ⟨found, hfound, heq⟩ := Option.map_eq_some_iff.mp h
    have := length_lt_of_bracketed hfound
    simp only [Prod.mk.injEq] at heq
    rw [← heq.2]
    exact this

/-- Reads tokens. `position` is the number of characters before the text, and `separated` says
whether a part of the path starts here. -/
def tokens (position : Nat) (separated : Bool) (s : List Char) :
    Except PatternFault (List Token) :=
  match s with
  | [] => .ok []
  | '?' :: rest => (tokens (position + 1) false rest).map (.anyChar :: ·)
  | '*' :: '*' :: '*' :: _ => .error ⟨position + 2, .wildcards⟩
  | '*' :: '*' :: rest =>
    if separated then
      match rest with
      | [] => .ok [.anyDirectories]
      | '/' :: rest => (tokens (position + 3) true rest).map (.anyDirectories :: ·)
      | _ => .error ⟨position + 2, .recursiveWildcards⟩
    else .error ⟨position - 1, .recursiveWildcards⟩
  | '*' :: rest => (tokens (position + 1) false rest).map (.anySequence :: ·)
  | '[' :: rest =>
    match h : bracketToken? rest with
    | none => .error ⟨position, .range⟩
    | some (token, after) =>
      let position := position + 1 + (rest.length - after.length)
      (tokens position false after).map (token :: ·)
  | c :: rest => (tokens (position + 1) (c = '/') rest).map (.char c :: ·)
termination_by s.length
decreasing_by
  · simp
  · simp only [List.length_cons]; omega
  · simp
  · have := length_lt_of_bracketToken? h
    simp only [List.length_cons]; omega
  · simp

/-- The tokens of a pattern. -/
def read (s : List Char) : Except PatternFault (List Token) := tokens 0 true s

/-! ### Matching names -/

/-- Whether a character is in one of the ranges. -/
def inRanges (ranges : List (Char × Char)) (c : Char) : Bool :=
  ranges.any fun (low, high) => low ≤ c && c ≤ high

/-- How a name compares with tokens. -/
inductive Verdict where
  | fits
  /-- The name has another character than the tokens, or too many. -/
  | differs
  /-- The name ends before the tokens do. What is left of it after more characters is shorter
  still, and does not fit them either. -/
  | ends
deriving DecidableEq, Repr

/-- The verdict on what is left of a name after any number of characters: the first one that
settles it. -/
def anySuffix (judge : List Char → Verdict) : List Char → Verdict
  | [] => judge []
  | c :: rest =>
    match judge (c :: rest) with
    | .differs => anySuffix judge rest
    | verdict => verdict

/-- Whether a token stands for a character. -/
def Token.accepts (c : Char) : Token → Bool
  | char d => c = d
  | within ranges => inRanges ranges c
  | except ranges => !inRanges ranges c
  | _ => true

/-- Compares a name with tokens. -/
def judge : List Token → List Char → Verdict
  | [], name => if name.isEmpty then .fits else .differs
  | .anySequence :: tokens, name => anySuffix (judge tokens) name
  | .anyDirectories :: tokens, name => anySuffix (judge tokens) name
  | _ :: _, [] => .ends
  | token :: tokens, c :: rest => if token.accepts c then judge tokens rest else .differs

/-- Whether a name fits tokens. -/
def fits (tokens : List Token) (name : List Char) : Bool := judge tokens name = .fits

/-! ### Patterns of paths -/

/-- What a part of a path has to be. -/
inductive Component where
  /-- This name and no other. -/
  | literal (name : String)
  /-- Any name that fits. -/
  | named (tokens : List Token)
  /-- Any number of directories. -/
  | directories
deriving DecidableEq, Repr, Inhabited

/-- The text of tokens that are all plain characters. -/
def plainText? : List Token → Option (List Char)
  | [] => some []
  | .char c :: rest => (plainText? rest).map (c :: ·)
  | _ => none

/-- The component that tokens make. -/
def Component.ofTokens (tokens : List Token) : Component :=
  match plainText? tokens with
  | some name => .literal (String.ofList name)
  | none => if tokens.contains .anyDirectories then .directories else .named tokens

/-- Whether a name fits a component. -/
def Component.accepts (name : String) : Component → Bool
  | literal s => s = name
  | named tokens => fits tokens name.toList
  | directories => true

/-- A pattern of paths. -/
structure Pattern where
  absolute : Bool
  components : List Component
  /-- Whether only directories count. -/
  onlyDirectories : Bool
deriving DecidableEq, Repr

/-- Keeps one of several `directories` in a row, which stand for the same as one. -/
def collapse : List Component → List Component
  | .directories :: .directories :: rest => collapse (.directories :: rest)
  | c :: rest => c :: collapse rest
  | [] => []

/-- The parts of a path. A slash at the end starts no part. -/
def splitPath (s : List Char) : List (List Char) :=
  let parts := Path.segments s
  if parts.getLast? = some [] then parts.dropLast else parts

/-- The pattern in a text. The whole text has to be a pattern, and so does each part of the path. -/
def Pattern.ofText (s : String) : Except PatternFault Pattern := do
  let _ ← read s.toList
  let absolute := s.toList.head? = some '/'
  let components ← (splitPath (if absolute then s.toList.drop 1 else s.toList)).mapM fun part =>
    (read part).map Component.ofTokens
  .ok ⟨absolute, collapse components, s.toList.getLast? = some '/'⟩

end Classwright.Glob
