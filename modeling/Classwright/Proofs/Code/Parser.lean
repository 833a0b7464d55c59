import Classwright.Proofs.Code.Grammar

/-!
# A parser of expressions

A parser by descent, with a loop that climbs through the operators. It is a function, so tokens are one
expression at most.

* **`parseExpr`** reads an operand and goes on with **`climb`**, as long as an operator follows that is
  allowed where a level is called for. **`parseUnary`** reads an operand, and **`parseSuffixes`** goes on
  with members, indices and calls.
* **`Parsed`** — what the parser makes of the tokens of an expression, with one lemma for each rule of
  the grammar. Since operators group to the left, an expression is often read before its last operator
  is met. So the statement is about the loop: after the tokens, it is where it would be if the expression
  had been read at once.
* **`Reads.parsed`** — the parser reads what the grammar says, and **`Reads.unique`** that tokens are one
  expression at most.
-/

namespace Classwright.Code

open Classwright.Code.Expr (conditionalLevel relationalLevel unaryLevel primaryLevel)

/-! ## The parser -/

/-- A result and the tokens that are left, if some were used up. -/
def shorter {α : Type} (ts : List Token) :
    Option (α × List Token) → Option (α × { rest : List Token // rest.length < ts.length })
  | some (a, rest) => if h : rest.length < ts.length then some (a, ⟨rest, h⟩) else none
  | none => none

/-- The tokens after a sign. -/
def skip (s : Sign) : (ts : List Token) → Option { rest : List Token // rest.length < ts.length }
  | .sign t :: rest => if t = s then some ⟨rest, Nat.lt_succ_self _⟩ else none
  | _ => none

mutual

/-- Reads a type. -/
def parseType (ts : List Token) : Option (TypeRef × List Token) :=
  match ts with
  | .word name :: .sign .less :: rest =>
    if isName name then (parseTypes rest).map fun (arguments, rest) => (.generic name arguments, rest)
    else none
  | .word name :: rest => if isName name then some (.named name, rest) else none
  | _ => none
termination_by 3 * ts.length

/-- Reads types up to the end of their list. -/
def parseTypes (ts : List Token) : Option (List TypeRef × List Token) :=
  match ts with
  | .sign .greater :: rest => some ([], rest)
  | ts => parseTypeList ts
termination_by 3 * ts.length + 2

/-- Reads one type or more up to the end of their list. -/
def parseTypeList (ts : List Token) : Option (List TypeRef × List Token) := do
  let (t, ⟨rest, _⟩) ← shorter ts (parseType ts)
  match skip .comma rest with
  | some ⟨next, _⟩ => (parseTypeList next).map fun (types, rest) => (t :: types, rest)
  | none => (skip .greater rest).map fun next => ([t], next)
termination_by 3 * ts.length + 1

end

/-- The operator of a sign. -/
def BinaryOp.ofToken? : Sign → Option BinaryOp
  | .equal => some equal
  | .notEqual => some notEqual
  | .or => some or
  | .plus => some add
  | .star => some multiply
  | _ => none

/-- A word that is an expression by itself, or a type. -/
def parseWord (word : String) (rest : List Token) : Option (Expr × List Token) :=
  match word with
  | "this" => some (.this, rest)
  | "null" => some (.null, rest)
  | "true" => some (.bool true, rest)
  | "false" => some (.bool false, rest)
  | word =>
    match number? word with
    | some n => some (.int n, rest)
    | none => (parseType (.word word :: rest)).map fun (t, rest) => (t.asExpr, rest)

/-- The type in parentheses that was read as an expression, if what follows makes it one. -/
def castType? (ts : List Token) (e : Expr) (next : List Token) : Option TypeRef :=
  match ts with
  | .word _ :: _ => if next.head?.any Token.startsOperand then e.asType? else none
  | _ => none

mutual

/-- Reads an expression where a level is called for. -/
def parseExpr (level : Nat) (ts : List Token) : Option (Expr × List Token) := do
  let (e, ⟨rest, _⟩) ← shorter ts (parseUnary ts)
  climb level e rest
termination_by 8 * ts.length + 3

/-- Goes on with an expression as long as an operator follows that is allowed where the level is called
for. -/
def climb (level : Nat) (left : Expr) (ts : List Token) : Option (Expr × List Token) :=
  match ts with
  | .word "as" :: rest =>
    if level ≤ relationalLevel then do
      let (t, ⟨next, _⟩) ← shorter rest (parseType rest)
      climb level (.asType left t) next
    else some (left, ts)
  | .sign .question :: rest =>
    if level ≤ conditionalLevel then do
      let (yes, ⟨next, _⟩) ← shorter rest (parseExpr conditionalLevel rest)
      let ⟨next, _⟩ ← skip .colon next
      -- it takes all that is left, so the loop ends here
      (parseExpr conditionalLevel next).map fun (no, rest) => (.conditional left yes no, rest)
    else some (left, ts)
  | .sign s :: rest =>
    match BinaryOp.ofToken? s with
    | some op =>
      if level ≤ op.level then do
        let (right, ⟨next, _⟩) ← shorter rest (parseExpr (op.level + 1) rest)
        climb level (.binary left op right) next
      else some (left, ts)
    | none => some (left, ts)
  | _ => some (left, ts)
termination_by 8 * ts.length

/-- Reads an operand. -/
def parseUnary (ts : List Token) : Option (Expr × List Token) :=
  match ts with
  | .sign .not :: rest => (parseUnary rest).map fun (e, rest) => (.not e, rest)
  | .sign .minus :: .word word :: rest => (number? word).map fun n => (.int (-n), rest)
  | .sign .openParen :: rest => do
    let (e, ⟨next, _⟩) ← shorter rest (parseExpr conditionalLevel rest)
    let ⟨next, _⟩ ← skip .closeParen next
    match castType? rest e next with
    | some t => (parseUnary next).map fun (e, rest) => (.cast t e, rest)
    | none => parseSuffixes e next
  | .word "new" :: rest => do
    let (t, ⟨next, _⟩) ← shorter rest (parseType rest)
    let ⟨next, _⟩ ← skip .openParen next
    let (arguments, ⟨next, _⟩) ← shorter next (parseArguments next)
    parseSuffixes (.new t arguments) next
  | .word word :: rest => do
    let (e, ⟨next, _⟩) ← shorter (.word word :: rest) (parseWord word rest)
    parseSuffixes e next
  | _ => none
termination_by 8 * ts.length + 2
decreasing_by all_goals grind

/-- Goes on with a primary expression. -/
def parseSuffixes (e : Expr) (ts : List Token) : Option (Expr × List Token) :=
  match ts with
  | .sign .dot :: .word name :: rest =>
    if isName name then parseSuffixes (.member e name) rest else none
  | .sign .openBracket :: rest => do
    let (position, ⟨next, _⟩) ← shorter rest (parseExpr conditionalLevel rest)
    let ⟨next, _⟩ ← skip .closeBracket next
    parseSuffixes (.index e position) next
  | .sign .openParen :: rest => do
    let (arguments, ⟨next, _⟩) ← shorter rest (parseArguments rest)
    parseSuffixes (.call e arguments) next
  | _ => some (e, ts)
termination_by 8 * ts.length + 1

/-- Reads arguments up to the end of their list. -/
def parseArguments (ts : List Token) : Option (List Expr × List Token) :=
  match ts with
  | .sign .closeParen :: rest => some ([], rest)
  | ts => parseArgumentList ts
termination_by 8 * ts.length + 6

/-- Reads one argument or more up to the end of their list. -/
def parseArgumentList (ts : List Token) : Option (List Expr × List Token) := do
  let (e, ⟨rest, _⟩) ← shorter ts (parseArgument ts)
  match skip .comma rest with
  | some ⟨next, _⟩ => (parseArgumentList next).map fun (es, rest) => (e :: es, rest)
  | none => (skip .closeParen rest).map fun next => ([e], next)
termination_by 8 * ts.length + 5

/-- Reads an argument. -/
def parseArgument (ts : List Token) : Option (Expr × List Token) :=
  match ts with
  | .word "out" :: .word "var" :: .word name :: rest =>
    if isName name then some (.outVar name, rest) else none
  | ts => parseExpr conditionalLevel ts
termination_by 8 * ts.length + 4

end

/-- Reads a text as one expression. -/
def Expr.parse (text : String) : Option Expr :=
  match parseExpr conditionalLevel (tokens text.toList) with
  | some (e, []) => some e
  | _ => none

/-! ## Steps of the parser -/

theorem shorter_some {α : Type} {a : α} {ts rest : List Token} (h : rest.length < ts.length) :
    shorter ts (some (a, rest)) = some (a, ⟨rest, h⟩) := by
  rw [shorter, dif_pos h]

theorem skip_cons (s : Sign) (rest : List Token) :
    skip s (.sign s :: rest) = some ⟨rest, Nat.lt_succ_self _⟩ := by
  rw [skip, if_pos rfl]

theorem lt_length_append {ts : List Token} (h : ts ≠ []) (rest : List Token) :
    rest.length < (ts ++ rest).length := by
  have hpos := List.length_pos_iff.2 h
  rw [List.length_append]
  omega

/-! ## Types -/

/-- What the parser makes of the tokens of types. -/
def TypePhrase.Parsed : TypePhrase → List Token → Prop
  | one t, ts => ∀ rest, rest.head? ≠ some (.sign .less) → parseType (ts ++ rest) = some (t, rest)
  | all types, ts => ∀ rest, parseTypes (ts ++ .sign .greater :: rest) = some (types, rest) ∧
      (types ≠ [] → parseTypeList (ts ++ .sign .greater :: rest) = some (types, rest))

theorem parseTypes_word (word : String) (rest : List Token) :
    parseTypes (.word word :: rest) = parseTypeList (.word word :: rest) := by
  rw [parseTypes]
  intro next hnext
  cases hnext

theorem parseTypeList_last {t : TypeRef} {ts rest : List Token}
    (h : parseType ts = some (t, .sign .greater :: rest))
    (hlt : (Token.sign .greater :: rest).length < ts.length) : parseTypeList ts = some ([t], rest) := by
  rw [parseTypeList, h, shorter_some hlt]
  rfl

theorem parseTypeList_more {t : TypeRef} {types : List TypeRef} {ts next rest : List Token}
    (h : parseType ts = some (t, .sign .comma :: next))
    (hlt : (Token.sign .comma :: next).length < ts.length)
    (hnext : parseTypeList next = some (types, rest)) :
    parseTypeList ts = some (t :: types, rest) := by
  rw [parseTypeList, h, shorter_some hlt]
  simp only [Option.bind_eq_bind, Option.bind_some, skip_cons, hnext]
  rfl

theorem ReadsType.parsed {p : TypePhrase} {ts : List Token} (h : ReadsType p ts) : p.Parsed ts := by
  induction h with
  | @named name hname =>
    intro rest hrest
    rw [List.singleton_append]
    unfold parseType
    split
    · next heq =>
      cases heq
      exact absurd rfl hrest
    · next heq =>
      cases heq
      rw [if_pos hname]
    · next hnone => exact absurd rfl (hnone name rest)
  | generic hname harguments ih =>
    intro rest hrest
    simp [parseType, hname, (ih rest).1]
  | none =>
    intro rest
    refine ⟨?_, fun hne => absurd rfl hne⟩
    rw [List.nil_append, parseTypes]
  | @last t ts ht ih =>
    intro rest
    obtain ⟨name, ts, rfl, -⟩ := ht.exists_word
    have hlist := parseTypeList_last (ih (.sign .greater :: rest) (by simp))
      (lt_length_append (by simp) _)
    exact ⟨(parseTypes_word _ _).trans hlist, fun _ => hlist⟩
  | @more t u types ts us ht hrest ih ihrest =>
    intro rest
    obtain ⟨name, ts, rfl, -⟩ := ht.exists_word
    have hfirst := ih (.sign .comma :: (us ++ .sign .greater :: rest)) (by simp)
    have hlist := parseTypeList_more hfirst (lt_length_append (by simp) _)
      ((ihrest rest).2 (by simp))
    rw [List.append_assoc, List.cons_append]
    exact ⟨(parseTypes_word _ _).trans hlist, fun _ => hlist⟩

/-! ## What follows an expression -/

/-- Whether a token can follow an operand that is complete. -/
def Token.endsOperand : Token → Bool
  | word text => text == "as"
  | sign s => s ∉ [Sign.openParen, .openBracket, .dot, .less, .not, .minus]

/-- Tokens that can follow an operand that is complete. -/
def Follows (rest : List Token) : Prop := ∀ t ∈ rest.head?, t.endsOperand = true

/-- The level that the operator in front calls for on its left, or zero if none is there. -/
def leftLevel : List Token → Nat
  | .word "as" :: _ => relationalLevel
  | .sign .question :: _ => conditionalLevel + 1
  | .sign s :: _ => (BinaryOp.ofToken? s).elim 0 BinaryOp.level
  | _ => 0

theorem follows_sign {s : Sign} (h : (Token.sign s).endsOperand = true) (rest : List Token) :
    Follows (.sign s :: rest) := by
  intro t ht
  cases ht
  exact h

theorem Follows.head?_ne_less {rest : List Token} (h : Follows rest) :
    rest.head? ≠ some (.sign .less) := by
  intro hless
  exact absurd (h _ hless) (by decide)

/-- No token both ends an operand and starts one. -/
theorem Token.not_startsOperand_of_endsOperand {t : Token} (h : t.endsOperand = true) :
    t.startsOperand = false := by
  cases t with
  | word text =>
    rw [endsOperand, beq_iff_eq] at h
    rw [h]
    rfl
  | sign s =>
    revert h
    cases s <;> decide

theorem Follows.not_startsOperand {rest : List Token} (h : Follows rest) :
    rest.head?.any Token.startsOperand = false := by
  cases rest with
  | nil => rfl
  | cons t rest => exact Token.not_startsOperand_of_endsOperand (h t rfl)

theorem parseSuffixes_of_follows {rest : List Token} (h : Follows rest) (e : Expr) :
    parseSuffixes e rest = some (e, rest) := by
  unfold parseSuffixes
  split
  · exact absurd (h _ rfl) (by decide)
  · exact absurd (h _ rfl) (by decide)
  · exact absurd (h _ rfl) (by decide)
  · rfl

theorem BinaryOp.ofToken?_token (op : BinaryOp) : ofToken? op.token = some op := by
  cases op <;> rfl

theorem BinaryOp.eq_token_of_ofToken? {s : Sign} {op : BinaryOp} (h : ofToken? s = some op) :
    s = op.token := by
  cases s <;> cases h <;> rfl

theorem leftLevel_token (op : BinaryOp) (rest : List Token) :
    leftLevel (.sign op.token :: rest) = op.level := by
  cases op <;> rfl

theorem BinaryOp.level_ne_zero (op : BinaryOp) : op.level ≠ 0 := by
  cases op <;> decide

/-- An expression ends before an operator that is not allowed. -/
theorem climb_eq_self {level : Nat} {rest : List Token} (h : leftLevel rest ≠ 0 → leftLevel rest < level)
    (e : Expr) : climb level e rest = some (e, rest) := by
  unfold climb
  split
  · have hlt : relationalLevel < level := h (by simp [leftLevel, relationalLevel])
    rw [if_neg (Nat.not_le.2 hlt)]
  · have hlt : conditionalLevel + 1 < level := h (by simp [leftLevel])
    rw [if_neg (Nat.not_le.2 (Nat.lt_of_succ_lt hlt))]
  · next s rest _ =>
    split
    · next op hop =>
      rw [BinaryOp.eq_token_of_ofToken? hop, leftLevel_token] at h
      rw [if_neg (Nat.not_le.2 (h op.level_ne_zero))]
    · rfl
  · rfl

/-- No operator calls for a conditional on its left. -/
theorem leftLevel_eq_zero {rest : List Token} (h : leftLevel rest ≤ conditionalLevel) :
    leftLevel rest = 0 := by
  fun_cases leftLevel rest with
  | case1 => exact absurd (show relationalLevel ≤ conditionalLevel from h) (by decide)
  | case2 => exact absurd (show conditionalLevel + 1 ≤ conditionalLevel from h) (by decide)
  | case3 s rest hquestion =>
    cases hop : BinaryOp.ofToken? s with
    | none => rfl
    | some op =>
      rw [BinaryOp.eq_token_of_ofToken? hop, leftLevel_token] at h
      cases op <;> exact absurd h (by decide)
  | case4 => rfl

section

variable {level : Nat} {left right yes no : Expr} {t : TypeRef} {rest next next' : List Token}

theorem climb_binary {op : BinaryOp} (hlevel : level ≤ op.level)
    (hright : parseExpr (op.level + 1) rest = some (right, next)) (hlt : next.length < rest.length) :
    climb level left (.sign op.token :: rest) = climb level (.binary left op right) next := by
  have hquestion : op.token = .question → False := by
    cases op <;> exact fun h => nomatch h
  rw [climb.eq_3 _ _ _ _ hquestion, BinaryOp.ofToken?_token]
  dsimp only
  rw [if_pos hlevel, hright, shorter_some hlt]
  rfl

theorem climb_asType (hlevel : level ≤ relationalLevel) (ht : parseType rest = some (t, next))
    (hlt : next.length < rest.length) :
    climb level left (.word "as" :: rest) = climb level (.asType left t) next := by
  rw [climb, if_pos hlevel, ht, shorter_some hlt]
  rfl

theorem climb_conditional (hlevel : level ≤ conditionalLevel)
    (hyes : parseExpr conditionalLevel rest = some (yes, .sign .colon :: next))
    (hlt : (Token.sign .colon :: next).length < rest.length)
    (hno : parseExpr conditionalLevel next = some (no, next')) :
    climb level left (.sign .question :: rest) = some (.conditional left yes no, next') := by
  rw [climb, if_pos hlevel, hyes, shorter_some hlt]
  simp only [Option.bind_eq_bind, Option.bind_some, skip_cons, hno]
  rfl

end

/-! ## Steps through operands -/

section

variable {e e' position : Expr} {arguments : List Expr} {t : TypeRef} {rest next next' : List Token}

theorem parseUnary_word {word : String} (hnew : word ≠ "new")
    (h : parseWord word rest = some (e, next)) (hlt : next.length < rest.length + 1) :
    parseUnary (.word word :: rest) = parseSuffixes e next := by
  rw [parseUnary.eq_5 _ _ hnew, h, shorter_some hlt]
  rfl

theorem parseWord_of_isName {name : String} (h : isName name = true) (rest : List Token) :
    parseWord name rest = (parseType (.word name :: rest)).map fun (t, rest) => (t.asExpr, rest) := by
  rw [parseWord.eq_5 _ _ (ne_of_isName h _ (by decide)) (ne_of_isName h _ (by decide))
    (ne_of_isName h _ (by decide)) (ne_of_isName h _ (by decide)), number?_of_isName h]

theorem parseUnary_parens (h : parseExpr conditionalLevel rest = some (e, .sign .closeParen :: next))
    (hlt : (Token.sign .closeParen :: next).length < rest.length)
    (hcast : castType? rest e next = none) :
    parseUnary (.sign .openParen :: rest) = parseSuffixes e next := by
  rw [parseUnary, h, shorter_some hlt]
  simp only [Option.bind_eq_bind, Option.bind_some, skip_cons, hcast]

theorem parseUnary_cast (h : parseExpr conditionalLevel rest = some (e, .sign .closeParen :: next))
    (hlt : (Token.sign .closeParen :: next).length < rest.length)
    (hcast : castType? rest e next = some t) (hoperand : parseUnary next = some (e', next')) :
    parseUnary (.sign .openParen :: rest) = some (.cast t e', next') := by
  rw [parseUnary, h, shorter_some hlt]
  simp only [Option.bind_eq_bind, Option.bind_some, skip_cons, hcast, hoperand]
  rfl

theorem parseUnary_new (ht : parseType rest = some (t, .sign .openParen :: next))
    (hlt : (Token.sign .openParen :: next).length < rest.length)
    (harguments : parseArguments next = some (arguments, next')) (hlt' : next'.length < next.length) :
    parseUnary (.word "new" :: rest) = parseSuffixes (.new t arguments) next' := by
  rw [parseUnary, ht, shorter_some hlt]
  simp only [Option.bind_eq_bind, Option.bind_some, skip_cons, harguments, shorter_some hlt']

theorem parseSuffixes_member {name : String} (hname : isName name = true) :
    parseSuffixes e (.sign .dot :: .word name :: rest) = parseSuffixes (.member e name) rest := by
  rw [parseSuffixes, if_pos hname]

theorem parseSuffixes_index
    (h : parseExpr conditionalLevel rest = some (position, .sign .closeBracket :: next))
    (hlt : (Token.sign .closeBracket :: next).length < rest.length) :
    parseSuffixes e (.sign .openBracket :: rest) = parseSuffixes (.index e position) next := by
  rw [parseSuffixes, h, shorter_some hlt]
  simp only [Option.bind_eq_bind, Option.bind_some, skip_cons]

theorem parseSuffixes_call (h : parseArguments rest = some (arguments, next))
    (hlt : next.length < rest.length) :
    parseSuffixes e (.sign .openParen :: rest) = parseSuffixes (.call e arguments) next := by
  rw [parseSuffixes, h, shorter_some hlt]
  rfl

theorem parseArguments_cons {t : Token} (h : t ≠ .sign .closeParen) (rest : List Token) :
    parseArguments (t :: rest) = parseArgumentList (t :: rest) := by
  rw [parseArguments]
  intro next hnext
  cases hnext
  exact h rfl

theorem parseArgumentList_last {ts : List Token}
    (h : parseArgument ts = some (e, .sign .closeParen :: rest))
    (hlt : (Token.sign .closeParen :: rest).length < ts.length) :
    parseArgumentList ts = some ([e], rest) := by
  rw [parseArgumentList, h, shorter_some hlt]
  rfl

theorem parseArgumentList_more {ts : List Token}
    (h : parseArgument ts = some (e, .sign .comma :: next))
    (hlt : (Token.sign .comma :: next).length < ts.length)
    (hnext : parseArgumentList next = some (arguments, rest)) :
    parseArgumentList ts = some (e :: arguments, rest) := by
  rw [parseArgumentList, h, shorter_some hlt]
  simp only [Option.bind_eq_bind, Option.bind_some, skip_cons, hnext]
  rfl

theorem parseArgument_of_startsOperand {t : Token} (h : t.startsOperand = true) (rest : List Token) :
    parseArgument (t :: rest) = parseExpr conditionalLevel (t :: rest) := by
  rw [parseArgument]
  intro name next hnext
  cases hnext
  cases h

end

/-! ## Expressions -/

/-- What the parser makes of the tokens of an expression that stands where a level is called for. -/
structure Parsed (l : Nat) (e : Expr) (ts : List Token) : Prop where
  expr {level : Nat} (hlevel : level ≤ l) {rest : List Token} (hrest : Follows rest)
    (hleft : leftLevel rest ≤ l) : parseExpr level (ts ++ rest) = climb level e rest
  unary (hl : unaryLevel ≤ l) {rest : List Token} (hrest : Follows rest) :
    parseUnary (ts ++ rest) = some (e, rest)
  primary (hl : primaryLevel ≤ l) {rest : List Token} (hless : rest.head? ≠ some (.sign .less))
    (hcast : rest.head?.any Token.startsOperand = true → ¬ ParenthesizedType ts) :
    parseUnary (ts ++ rest) = parseSuffixes e rest

namespace Parsed

variable {l : Nat} {e : Expr} {ts : List Token}

theorem parseExpr_of_unary {rest : List Token} (hts : ts ≠ [])
    (h : parseUnary (ts ++ rest) = some (e, rest)) (level : Nat) :
    parseExpr level (ts ++ rest) = climb level e rest := by
  rw [parseExpr, h, shorter_some (lt_length_append hts rest)]
  rfl

/-- Operands that are no primary expressions. -/
theorem of_unary (hl : l ≤ unaryLevel) (hts : ts ≠ [])
    (h : ∀ rest, Follows rest → parseUnary (ts ++ rest) = some (e, rest)) : Parsed l e ts where
  expr _ _ hrest _ := parseExpr_of_unary hts (h _ hrest) _
  unary _ _ hrest := h _ hrest
  primary hprimary := absurd (Nat.le_trans hprimary hl) (by decide)

/-- Primary expressions. -/
theorem of_primary (hts : ts ≠ [])
    (h : ∀ rest, rest.head? ≠ some (.sign .less) →
      (rest.head?.any Token.startsOperand = true → ¬ ParenthesizedType ts) →
      parseUnary (ts ++ rest) = parseSuffixes e rest) : Parsed l e ts := by
  have hunary (rest : List Token) (hrest : Follows rest) :
      parseUnary (ts ++ rest) = some (e, rest) := by
    rw [h rest hrest.head?_ne_less fun hstarts => ?_, parseSuffixes_of_follows hrest]
    rw [hrest.not_startsOperand] at hstarts
    cases hstarts
  exact ⟨fun _ _ hrest _ => parseExpr_of_unary hts (hunary _ hrest) _, fun _ _ hrest => hunary _ hrest,
    fun _ _ hless hcast => h _ hless hcast⟩

end Parsed

/-- What the parser makes of the tokens of a phrase. -/
def Phrase.Parsed : Phrase → List Token → Prop
  | expr l e, ts => Code.Parsed l e ts
  | argument e, ts => ∀ rest, Follows rest → leftLevel rest = 0 →
      parseArgument (ts ++ rest) = some (e, rest)
  | arguments es, ts => ∀ rest, parseArguments (ts ++ .sign .closeParen :: rest) = some (es, rest) ∧
      (es ≠ [] → parseArgumentList (ts ++ .sign .closeParen :: rest) = some (es, rest))

theorem Reads.ne_nil {l : Nat} {e : Expr} {ts : List Token} (h : Reads (.expr l e) ts) : ts ≠ [] := by
  obtain ⟨t, rest, rfl, -⟩ := h.exists_token rfl
  exact List.cons_ne_nil _ _

theorem Reads.exists_cons_of_argument {e : Expr} {ts : List Token} (h : Reads (.argument e) ts) :
    ∃ t rest, ts = t :: rest ∧ t ≠ .sign .closeParen := by
  cases h with
  | value he =>
    obtain ⟨t, rest, rfl, ht⟩ := he.exists_token rfl
    refine ⟨t, rest, rfl, ?_⟩
    rintro rfl
    cases ht
  | outVar => exact ⟨_, _, rfl, by simp⟩

namespace Parsed

variable {l : Nat} {e : Expr} {ts rest : List Token}

/-- An expression up to a token that is no operator. -/
theorem parseExpr_eq (h : Parsed conditionalLevel e ts) (hrest : Follows rest)
    (hleft : leftLevel rest = 0) : parseExpr conditionalLevel (ts ++ rest) = some (e, rest) := by
  rw [h.expr (Nat.le_refl _) hrest (hleft ▸ Nat.zero_le _), climb_eq_self fun hne => absurd hleft hne]

/-- A word that is complete in itself. -/
theorem of_word {word : String} (hnew : word ≠ "new")
    (h : ∀ rest, parseWord word rest = some (e, rest)) : Parsed l e [.word word] := by
  refine of_primary (by simp) fun rest _ _ => ?_
  exact parseUnary_word hnew (h rest) (Nat.lt_succ_self _)

theorem number {n : Nat} {word : String} (hn : number? word = some n) :
    Parsed l (.int n) [.word word] := by
  have hne (fixed : String) (hfixed : number? fixed = none) : word ≠ fixed := by
    rintro rfl
    cases hn.symm.trans hfixed
  refine of_word (hne "new" (by decide)) fun rest => ?_
  rw [parseWord.eq_5 _ _ (hne _ (by decide)) (hne _ (by decide)) (hne _ (by decide)) (hne _ (by decide)),
    hn]

theorem type {t : TypeRef} (ht : ReadsType (.one t) ts) : Parsed l t.asExpr ts := by
  obtain ⟨name, us, rfl, hname⟩ := ht.exists_word
  refine of_primary (by simp) fun rest hless _ => ?_
  have htype : parseType (.word name :: (us ++ rest)) = some (t, rest) := ht.parsed rest hless
  rw [List.cons_append]
  refine parseUnary_word (ne_of_isName hname "new" (by decide)) ?_
    (lt_length_append (List.cons_ne_nil (.word name) us) rest)
  rw [parseWord_of_isName hname, htype]
  rfl

/-- What stands in parentheses is an expression, unless it is a type and an operand follows. -/
theorem parens (he : Reads (.expr conditionalLevel e) ts) (h : Parsed conditionalLevel e ts) :
    Parsed l e (.sign .openParen :: (ts ++ [.sign .closeParen])) := by
  refine of_primary (by simp) fun rest _ hcast => ?_
  have hinner := h.parseExpr_eq (follows_sign (s := .closeParen) rfl rest) rfl
  -- with an operand behind it, only a type could be taken for a cast
  have hnone : castType? (ts ++ .sign .closeParen :: rest) e rest = none := by
    obtain ⟨first, us, rfl, -⟩ := he.exists_token rfl
    cases first with
    | sign s => rfl
    | word word =>
      rw [List.cons_append, castType?]
      split
      · next hstarts =>
        cases htype : e.asType? with
        | none => rfl
        | some t => exact absurd ⟨t, _, he.readsType rfl htype rfl, rfl⟩ (hcast hstarts)
      · rfl
  rw [List.cons_append, List.append_assoc]
  exact parseUnary_parens hinner (lt_length_append he.ne_nil _) hnone

theorem member {name : String} (h : Parsed primaryLevel e ts) (hname : isName name = true) :
    Parsed l (.member e name) (ts ++ [.sign .dot, .word name]) := by
  refine of_primary (by simp) fun rest _ _ => ?_
  rw [List.append_assoc, h.primary (Nat.le_refl _) (by simp) (by simp [Token.startsOperand])]
  exact parseSuffixes_member hname

theorem index {i : Expr} {us : List Token} (h : Parsed primaryLevel e ts)
    (hi : Parsed conditionalLevel i us) (hus : us ≠ []) :
    Parsed l (.index e i) (ts ++ .sign .openBracket :: (us ++ [.sign .closeBracket])) := by
  refine of_primary (by simp) fun rest _ _ => ?_
  have hposition := hi.parseExpr_eq (follows_sign (s := .closeBracket) rfl rest) rfl
  rw [List.append_assoc, List.cons_append, List.append_assoc,
    h.primary (Nat.le_refl _) (by simp) (by simp [Token.startsOperand])]
  exact parseSuffixes_index hposition (lt_length_append hus _)

theorem call {as : List Expr} {us : List Token} (h : Parsed primaryLevel e ts)
    (hcast : ¬ ParenthesizedType ts)
    (has : ∀ rest, parseArguments (us ++ .sign .closeParen :: rest) = some (as, rest)) :
    Parsed l (.call e as) (ts ++ .sign .openParen :: (us ++ [.sign .closeParen])) := by
  refine of_primary (by simp) fun rest _ _ => ?_
  rw [List.append_assoc, List.cons_append, List.append_assoc,
    h.primary (Nat.le_refl _) (by simp) fun _ => hcast]
  exact parseSuffixes_call (has rest) (by simp; omega)

theorem new {t : TypeRef} {as : List Expr} {us : List Token} (ht : ReadsType (.one t) ts)
    (has : ∀ rest, parseArguments (us ++ .sign .closeParen :: rest) = some (as, rest)) :
    Parsed l (.new t as) (.word "new" :: (ts ++ .sign .openParen :: (us ++ [.sign .closeParen]))) := by
  refine of_primary (by simp) fun rest _ _ => ?_
  have htype : parseType (ts ++ .sign .openParen :: (us ++ .sign .closeParen :: rest)) = some _ :=
    ht.parsed _ (by simp)
  rw [List.cons_append, List.append_assoc, List.cons_append, List.append_assoc]
  refine parseUnary_new htype (lt_length_append ?_ _) (has rest) (by simp; omega)
  obtain ⟨name, ts, rfl, -⟩ := ht.exists_word
  simp

theorem not (hl : l ≤ unaryLevel) (h : Parsed unaryLevel e ts) :
    Parsed l (.not e) (.sign .not :: ts) := by
  refine of_unary hl (by simp) fun rest hrest => ?_
  rw [List.cons_append, parseUnary, h.unary (Nat.le_refl _) hrest]
  rfl

theorem cast {t : TypeRef} {us : List Token} (hl : l ≤ unaryLevel) (ht : ReadsType (.one t) ts)
    (he : Reads (.expr unaryLevel e) us) (h : Parsed unaryLevel e us) :
    Parsed l (.cast t e) (.sign .openParen :: (ts ++ .sign .closeParen :: us)) := by
  refine of_unary hl (by simp) fun rest hrest => ?_
  -- the type is read as an expression first
  have hinner := (type (l := conditionalLevel) ht).parseExpr_eq
    (follows_sign (s := .closeParen) rfl (us ++ rest)) rfl
  obtain ⟨name, ts, rfl, -⟩ := ht.exists_word
  have hcast : castType? (.word name :: (ts ++ .sign .closeParen :: (us ++ rest))) t.asExpr (us ++ rest) =
      some t := by
    obtain ⟨first, us, rfl, hfirst⟩ := he.exists_token rfl
    rw [castType?, List.cons_append, List.head?_cons, Option.any_some, if_pos hfirst,
      TypeRef.asType?_asExpr]
  rw [List.cons_append, List.append_assoc, List.cons_append]
  exact parseUnary_cast hinner (lt_length_append (List.cons_ne_nil (.word name) ts) _) hcast
    (h.unary (Nat.le_refl _) hrest)

theorem negative {n : Nat} {word : String} (hl : l ≤ unaryLevel) (hn : number? word = some n) :
    Parsed l (.int (-n)) [.sign .minus, .word word] := by
  refine of_unary hl (by simp) fun rest _ => ?_
  rw [List.cons_append, List.singleton_append, parseUnary, hn]
  rfl

/-- Expressions that are no operands. -/
theorem of_loop (hl : l < unaryLevel)
    (h : ∀ level ≤ l, ∀ rest, Follows rest → leftLevel rest ≤ l →
      parseExpr level (ts ++ rest) = climb level e rest) : Parsed l e ts where
  expr hlevel _ hrest hleft := h _ hlevel _ hrest hleft
  unary hunary := absurd hunary (Nat.not_le.2 hl)
  primary hprimary := absurd (Nat.le_trans (by decide) hprimary) (Nat.not_le.2 hl)

/-- An operator between two operands. The loop goes on behind the second one. -/
theorem binary {a b : Expr} {op : BinaryOp} {us : List Token} (hl : l ≤ op.level)
    (ha : Parsed op.level a ts) (hb : Parsed (op.level + 1) b us) (hus : us ≠ []) :
    Parsed l (.binary a op b) (ts ++ .sign op.token :: us) := by
  have hlow : op.level < unaryLevel := by cases op <;> decide
  have hop : (Token.sign op.token).endsOperand = true := by cases op <;> rfl
  refine of_loop (Nat.lt_of_le_of_lt hl hlow) fun level hlevel rest hrest hleft => ?_
  -- what follows binds no more tightly than the operator, so the right operand ends before it
  have hloose : leftLevel rest ≤ op.level := Nat.le_trans hleft hl
  have hright : parseExpr (op.level + 1) (us ++ rest) = some (b, rest) := by
    rw [hb.expr (Nat.le_refl _) hrest (Nat.le_succ_of_le hloose),
      climb_eq_self fun _ => Nat.lt_succ_of_le hloose]
  rw [List.append_assoc, List.cons_append, ha.expr (Nat.le_trans hlevel hl) (follows_sign hop _)
    (Nat.le_of_eq (leftLevel_token op _))]
  exact climb_binary (Nat.le_trans hlevel hl) hright (lt_length_append hus rest)

theorem asType {t : TypeRef} {us : List Token} (hl : l ≤ relationalLevel)
    (h : Parsed relationalLevel e ts) (ht : ReadsType (.one t) us) :
    Parsed l (.asType e t) (ts ++ .word "as" :: us) := by
  refine of_loop (Nat.lt_of_le_of_lt hl (by decide)) fun level hlevel rest hrest _ => ?_
  have has : Follows (.word "as" :: (us ++ rest)) := by
    intro first hfirst
    cases hfirst
    rfl
  have htype : parseType (us ++ rest) = some (t, rest) := ht.parsed rest hrest.head?_ne_less
  rw [List.append_assoc, List.cons_append, h.expr (Nat.le_trans hlevel hl) has (Nat.le_refl _)]
  refine climb_asType (Nat.le_trans hlevel hl) htype (lt_length_append ?_ rest)
  obtain ⟨name, us, rfl, -⟩ := ht.exists_word
  exact List.cons_ne_nil _ _

/-- A conditional takes all that follows, so nothing goes on with it. -/
theorem conditional {c y n : Expr} {us vs : List Token} (hl : l ≤ conditionalLevel)
    (hc : Parsed (conditionalLevel + 1) c ts) (hy : Parsed conditionalLevel y us)
    (hn : Parsed conditionalLevel n vs) (hus : us ≠ []) :
    Parsed l (.conditional c y n) (ts ++ .sign .question :: (us ++ .sign .colon :: vs)) := by
  refine of_loop (Nat.lt_of_le_of_lt hl (by decide)) fun level hlevel rest hrest hleft => ?_
  have hnone : leftLevel rest = 0 := leftLevel_eq_zero (Nat.le_trans hleft hl)
  have hyes := hy.parseExpr_eq (follows_sign (s := .colon) rfl (vs ++ rest)) rfl
  have hlow : level ≤ conditionalLevel := Nat.le_trans hlevel hl
  rw [List.append_assoc, List.cons_append, List.append_assoc, List.cons_append,
    hc.expr (Nat.le_succ_of_le hlow) (follows_sign rfl _) (Nat.le_refl _),
    climb_conditional hlow hyes (lt_length_append hus _) (hn.parseExpr_eq hrest hnone),
    climb_eq_self fun hne => absurd hnone hne]

end Parsed

/-- **The parser reads what the grammar says.** -/
theorem Reads.parsed {p : Phrase} {ts : List Token} (h : Reads p ts) : p.Parsed ts := by
  induction h with
  | this | null | yes | no => exact Parsed.of_word (by decide) fun _ => rfl
  | number hn => exact Parsed.number hn
  | type ht => exact Parsed.type ht
  | parens he ih => exact Parsed.parens he ih
  | member he hname ih => exact Parsed.member ih hname
  | index he hi ihe ihi => exact Parsed.index ihe ihi hi.ne_nil
  | call he hcast has ihe ihas => exact Parsed.call ihe hcast fun rest => (ihas rest).1
  | new ht has ihas => exact Parsed.new ht fun rest => (ihas rest).1
  | not hl he ih => exact Parsed.not hl ih
  | cast hl ht he ih => exact Parsed.cast hl ht he ih
  | negative hl hn => exact Parsed.negative hl hn
  | binary hl ha hb iha ihb => exact Parsed.binary hl iha ihb hb.ne_nil
  | asType hl he ht ih => exact Parsed.asType hl ih ht
  | conditional hl hc hy hn ihc ihy ihn => exact Parsed.conditional hl ihc ihy ihn hy.ne_nil
  | value he ih =>
    intro rest hrest hleft
    obtain ⟨first, us, rfl, hfirst⟩ := he.exists_token rfl
    rw [List.cons_append, parseArgument_of_startsOperand hfirst]
    exact ih.parseExpr_eq hrest hleft
  | outVar hname =>
    intro rest _ _
    simp [parseArgument, hname]
  | none =>
    intro rest
    refine ⟨?_, fun hne => absurd rfl hne⟩
    rw [List.nil_append, parseArguments]
  | last he ih =>
    intro rest
    obtain ⟨first, us, rfl, hfirst⟩ := he.exists_cons_of_argument
    have hlist := parseArgumentList_last (ih (.sign .closeParen :: rest) (follows_sign rfl _) rfl)
      (lt_length_append (List.cons_ne_nil _ _) _)
    exact ⟨(parseArguments_cons hfirst _).trans hlist, fun _ => hlist⟩
  | @more e f es ts us he hrest ihe ihrest =>
    intro rest
    obtain ⟨first, ts, rfl, hfirst⟩ := he.exists_cons_of_argument
    have hargument := ihe (.sign .comma :: (us ++ .sign .closeParen :: rest)) (follows_sign rfl _) rfl
    have hlist := parseArgumentList_more hargument (lt_length_append (List.cons_ne_nil _ _) _)
      ((ihrest rest).2 (List.cons_ne_nil _ _))
    rw [List.append_assoc, List.cons_append]
    exact ⟨(parseArguments_cons hfirst _).trans hlist, fun _ => hlist⟩

/-- The parser finds the expression that tokens are. -/
theorem Reads.parseExpr_eq {e : Expr} {ts : List Token} (h : Reads (.expr conditionalLevel e) ts) :
    parseExpr conditionalLevel ts = some (e, []) := by
  have hparsed : Parsed conditionalLevel e ts := h.parsed
  have hall : parseExpr conditionalLevel (ts ++ []) = some (e, []) :=
    hparsed.parseExpr_eq (fun _ hnone => nomatch hnone) rfl
  rwa [List.append_nil] at hall

/-- **Tokens are one expression at most.** -/
theorem Reads.unique {l m : Nat} {e f : Expr} {ts : List Token} (he : Reads (.expr l e) ts)
    (hf : Reads (.expr m f) ts) (hl : conditionalLevel ≤ l) (hm : conditionalLevel ≤ m) : e = f := by
  have hsame := (he.weaken hl).parseExpr_eq.symm.trans (hf.weaken hm).parseExpr_eq
  cases hsame
  rfl

end Classwright.Code
