import Classwright.Emit.Names
import Classwright.Proofs.Code.Parser

/-!
# Printed expressions are read back

The printer puts an operand in parentheses if it binds more loosely than its place calls for. The grammar
makes the printed text the expression again, and nothing else, whatever the operands are.

* **`Expr.isPlain`** — the expressions that the statement is about: their names can be read, as all
  identifiers can that are not reserved (`isName_of_identifier`), and output arguments stand in calls only.
* **`Expr.untyped`** — the name of a type alone is printed like the name of a value, and read as one.
* **`Expr.reads_render`** — by the grammar, the text of an expression is the expression, at its own level.
* **`Expr.parse_render`** — so the parser gives it back, and different expressions have different texts.
-/

namespace Classwright.Code

open Classwright.Code.Expr (conditionalLevel relationalLevel unaryLevel primaryLevel parenthesize)

/-! ## Plain expressions -/

theorem isBlank_of_isAlphanumeric {c : Char} (h : Text.isAlphanumeric c = true) :
    Text.isBlank c = false := by
  -- the blanks are few, so each is looked up in the table of letters
  let blanks : List Nat := List.range' 9 5 ++ List.range' 0x2000 11 ++
    [0x20, 0x85, 0xA0, 0x1680, 0x2028, 0x2029, 0x202F, 0x205F, 0x3000]
  have hblanks : ∀ n ∈ blanks, Text.isAlphanumeric (Char.ofNat n) = false := by decide +kernel
  cases hblank : Text.isBlank c with
  | false => rfl
  | true =>
    have hmem : c.toNat ∈ blanks := by
      simp only [Text.isBlank, Bool.or_eq_true, Bool.and_eq_true, decide_eq_true_eq, beq_iff_eq] at hblank
      simp only [blanks, List.mem_append, List.mem_range'_1, List.mem_cons, List.not_mem_nil, or_false]
      omega
    have hletter := hblanks _ hmem
    rw [Char.ofNat_toNat, h] at hletter
    cases hletter

theorem isWordChar_of_isAlphanumeric {c : Char} (h : Text.isAlphanumeric c = true) :
    isWordChar c = true := by
  have hsign : Sign.ofChar? c = none := by
    fun_cases Sign.ofChar? c with
    | case17 => rfl
    | _ => exact absurd h (by decide +kernel)
  simp [isWordChar, isBlank_of_isAlphanumeric h, hsign]

/-- The identifiers of letters, digits and `_` that are not reserved are names. -/
theorem isName_of_identifier {word : String} {c : Char} (hstart : word.toList.head? = some c)
    (hdigit : c.isDigit = false) (h : ∀ d ∈ word.toList, Text.isAlphanumeric d = true ∨ d = '_')
    (hreserved : word ∉ Emit.reservedWords) : isName word = true := by
  have hfixed : fixedWords ⊆ Emit.reservedWords := by decide
  obtain ⟨rest, hrest⟩ := List.head?_eq_some_iff.1 hstart
  refine isName_iff.2 ⟨fun d hd => ?_, ⟨c, rest, hrest, hdigit⟩, fun hmem => hreserved (hfixed hmem)⟩
  rcases h d hd with hletter | rfl
  · exact isWordChar_of_isAlphanumeric hletter
  · decide

mutual

/-- Whether all names in a type can be read. -/
def TypeRef.isPlain : TypeRef → Bool
  | named name => isName name
  | generic name arguments => isName name && arePlain arguments

/-- Whether all names in types can be read. -/
def TypeRef.arePlain : List TypeRef → Bool
  | [] => true
  | t :: rest => t.isPlain && arePlain rest

end

namespace Expr

/-- Whether an expression is an output argument. -/
def isOutput : Expr → Bool
  | outVar name => isName name
  | _ => false

mutual

/-- Whether all names in an expression can be read, and output arguments are arguments only. -/
def isPlain : Expr → Bool
  | ident name => isName name
  | this | null | bool _ | int _ => true
  | type t => t.isPlain
  | member target name => target.isPlain && isName name
  | index target position => target.isPlain && position.isPlain
  | call callee arguments => callee.isPlain && arePlain arguments
  | new t arguments => t.isPlain && arePlain arguments
  | cast t operand => t.isPlain && operand.isPlain
  | asType operand t => operand.isPlain && t.isPlain
  | binary left _ right => left.isPlain && right.isPlain
  | not operand => operand.isPlain
  | conditional condition yes no => condition.isPlain && yes.isPlain && no.isPlain
  | outVar _ => false

/-- Whether all names in arguments can be read. -/
def arePlain : List Expr → Bool
  | [] => true
  | e :: rest => (e.isPlain || e.isOutput) && arePlain rest

end

mutual

/-- The expression, with names of values in the place of types that are names. -/
def untyped : Expr → Expr
  | type t => t.asExpr
  | member target name => member target.untyped name
  | index target position => index target.untyped position.untyped
  | call callee arguments => call callee.untyped (untypedAll arguments)
  | new t arguments => new t (untypedAll arguments)
  | cast t operand => cast t operand.untyped
  | asType operand t => asType operand.untyped t
  | binary left op right => binary left.untyped op right.untyped
  | not operand => not operand.untyped
  | conditional condition yes no => conditional condition.untyped yes.untyped no.untyped
  | e => e

/-- The arguments, with names of values in the place of types that are names. -/
def untypedAll : List Expr → List Expr
  | [] => []
  | e :: rest => e.untyped :: untypedAll rest

end

end Expr

/-! ## Tokens of printed pieces -/

/-- A character that is a sign, and no part of a longer one. -/
structure IsSingle (c : Char) (s : Sign) : Prop where
  sign : Sign.ofChar? c = some s
  notBlank : Text.isBlank c = false
  alone : c ≠ '=' ∧ c ≠ '!' ∧ c ≠ '|'

theorem tokens_single {c : Char} {s : Sign} (h : IsSingle c s) (rest : List Char) :
    tokens (c :: rest) = .sign s :: tokens rest :=
  tokens_sign h.sign h.notBlank (standsAlone_of_ne h.alone rest)

theorem apart_single {c : Char} {s : Sign} (h : IsSingle c s) (rest : List Char) : Apart (c :: rest) :=
  ⟨by simp [isWordChar, h.sign], h.alone.1, h.alone.2.2⟩

theorem tokens_append_single {c : Char} {s : Sign} (h : IsSingle c s) (a rest : List Char) :
    tokens (a ++ c :: rest) = tokens a ++ .sign s :: tokens rest := by
  rw [tokens_append (apart_single h rest), tokens_single h]

theorem apart_blank (rest : List Char) : Apart (' ' :: rest) := ⟨by decide, by decide, by decide⟩

theorem tokens_append_blank (a rest : List Char) :
    tokens (a ++ ' ' :: rest) = tokens a ++ tokens rest := by
  rw [tokens_append (apart_blank rest), tokens_blank]

theorem tokens_name {name : String} (h : isName name = true) : tokens name.toList = [.word name] :=
  tokens_word (ne_empty_of_isName h) (isName_iff.1 h).1

theorem tokens_parens (text : String) : tokens ("(" ++ text ++ ")").toList =
    .sign .openParen :: (tokens text.toList ++ [.sign .closeParen]) := by
  rw [String.toList_append, String.toList_append]
  exact (tokens_single (c := '(') ⟨rfl, rfl, by decide⟩ _).trans
    (congrArg _ (tokens_append_single (c := ')') ⟨rfl, rfl, by decide⟩ _ []))

theorem tokens_sign_blank (op : BinaryOp) (rest : List Char) :
    tokens (op.sign.toList ++ ' ' :: rest) = .sign op.token :: tokens rest := by
  rw [← tokens_blank rest]
  cases op with
  | equal => exact tokensFrom_pair rfl [] _
  | notEqual => exact tokensFrom_pair rfl [] _
  | or => exact tokensFrom_pair rfl [] _
  | add => exact tokens_single ⟨rfl, rfl, by decide⟩ _
  | multiply => exact tokens_single ⟨rfl, rfl, by decide⟩ _

theorem tokens_operator (op : BinaryOp) (a b : String) :
    tokens (a ++ " " ++ op.sign ++ " " ++ b).toList =
      tokens a.toList ++ .sign op.token :: tokens b.toList := by
  rw [← tokens_sign_blank, ← tokens_append_blank]
  simp

theorem tokens_word_blank {word : String} (hne : word ≠ "") (h : word.toList.all isWordChar = true)
    (rest : List Char) :
    tokens (word.toList ++ ' ' :: rest) = .word word :: tokens rest := by
  rw [tokens_append_blank, tokens_word hne (List.all_eq_true.1 h)]
  rfl

/-! ## Types -/

theorem tokens_comma (a b : String) :
    tokens (a ++ ", " ++ b).toList = tokens a.toList ++ .sign .comma :: tokens b.toList := by
  rw [← tokens_blank b.toList, ← tokens_append_single (c := ',') ⟨rfl, rfl, by decide⟩]
  simp

mutual

/-- **Printed types are read back.** -/
theorem TypeRef.reads_render : ∀ t : TypeRef, t.isPlain = true →
    ReadsType (.one t) (tokens t.render.toList)
  | .named name, h => by
    rw [TypeRef.render, tokens_name h]
    exact .named h
  | .generic name arguments, h => by
    rw [TypeRef.isPlain, Bool.and_eq_true] at h
    have htokens : tokens (TypeRef.generic name arguments).render.toList = .word name :: .sign .less ::
        (tokens (joinWith ", " (TypeRef.renderAll arguments)).toList ++ [.sign .greater]) := by
      have htext : (TypeRef.generic name arguments).render.toList =
          name.toList ++ '<' :: ((joinWith ", " (TypeRef.renderAll arguments)).toList ++ '>' :: []) := by
        simp [TypeRef.render]
      rw [htext, tokens_append_single ⟨rfl, rfl, by decide⟩, tokens_append_single ⟨rfl, rfl, by decide⟩,
        tokens_name h.1]
      rfl
    rw [htokens]
    exact .generic h.1 (TypeRef.reads_renderAll arguments h.2)

theorem TypeRef.reads_renderAll : ∀ types : List TypeRef, TypeRef.arePlain types = true →
    ReadsType (.all types) (tokens (joinWith ", " (TypeRef.renderAll types)).toList)
  | [], _ => .none
  | [t], h => by
    rw [TypeRef.arePlain, Bool.and_eq_true] at h
    exact .last (TypeRef.reads_render t h.1)
  | t :: u :: rest, h => by
    rw [TypeRef.arePlain, Bool.and_eq_true] at h
    have htokens : tokens (joinWith ", " (TypeRef.renderAll (t :: u :: rest))).toList = _ :=
      tokens_comma t.render (joinWith ", " (TypeRef.renderAll (u :: rest)))
    rw [htokens]
    exact .more (TypeRef.reads_render t h.1) (TypeRef.reads_renderAll (u :: rest) h.2)

end

/-! ## Expressions -/

theorem Expr.conditionalLevel_le_level (e : Expr) : conditionalLevel ≤ e.level := by
  have hprimary : conditionalLevel ≤ primaryLevel := by decide
  have hunary : conditionalLevel ≤ unaryLevel := by decide
  have hrelational : conditionalLevel ≤ relationalLevel := by decide
  cases e with
  | conditional condition yes no => exact Nat.le_refl _
  | binary left op right =>
    show conditionalLevel ≤ op.level
    cases op <;> decide
  | asType operand t => exact hrelational
  | not operand => exact hunary
  | cast t operand => exact hunary
  | int n =>
    rw [level]
    split
    · exact hunary
    · exact hprimary
  | _ => exact hprimary

/-- An operand in its place. -/
theorem reads_parenthesize {e f : Expr} {text : String} (h : Reads (.expr e.level f) (tokens text.toList))
    (least : Nat) : Reads (.expr least f) (tokens (parenthesize least e.level text).toList) := by
  unfold parenthesize
  split
  · rw [tokens_parens]
    exact .parens (h.weaken e.conditionalLevel_le_level)
  · next hle => exact h.weaken (Nat.not_lt.1 hle)

theorem tokens_equals (rest : List Char) :
    ∃ s us, tokens ('=' :: rest) = .sign s :: us ∧ (Token.sign s).startsOperand = false := by
  by_cases h : StandsAlone '=' rest
  · exact ⟨_, _, tokens_sign rfl rfl h, rfl⟩
  · cases rest with
    | nil => exact absurd (fun _ hnone => nomatch hnone) h
    | cons d rest =>
      by_cases hd : d = '='
      · rw [hd]
        exact ⟨_, _, tokensFrom_pair rfl [] rest, rfl⟩
      · refine absurd (fun e he => ?_) h
        cases he
        simp [Sign.ofPair?, hd]

/-- The sign of a negation does not run together with what is negated. -/
theorem tokens_not {l : Nat} {e : Expr} {text : List Char} (h : Reads (.expr l e) (tokens text)) :
    tokens ('!' :: text) = .sign .not :: tokens text := by
  refine tokens_sign rfl rfl fun c hc => ?_
  obtain ⟨rest, rfl⟩ := List.head?_eq_some_iff.1 hc
  have hne : c ≠ '=' := by
    rintro rfl
    obtain ⟨t, us, htokens, ht⟩ := h.exists_token rfl
    obtain ⟨s, vs, hequals, hs⟩ := tokens_equals rest
    rw [htokens] at hequals
    cases hequals
    cases ht.symm.trans hs
  simp [Sign.ofPair?, hne]

theorem isWordChar_of_isDigit {c : Char} (h : c.isDigit = true) : isWordChar c = true := by
  have hdigits : ∀ n < 10, isWordChar (Char.ofNat (48 + n)) = true := by decide
  have hrange : 48 ≤ c.toNat ∧ c.toNat ≤ 57 := by
    simpa [Char.isDigit, UInt32.le_iff_toNat_le] using h
  have hc := hdigits (c.toNat - 48) (by omega)
  rwa [Nat.add_sub_cancel' hrange.1, Char.ofNat_toNat] at hc

theorem tokens_digits (n : Nat) : tokens (toString n).toList = [.word (toString n)] := by
  refine tokens_word ?_ fun c hc => isWordChar_of_isDigit ?_
  · intro hempty
    have hlist := congrArg String.toList hempty
    simp at hlist
  · rw [Nat.toString_eq_repr, Nat.toList_repr] at hc
    exact Nat.isDigit_of_mem_toDigits (by decide) (by decide) hc

theorem Expr.reads_int (n : Int) :
    Reads (.expr (Expr.int n).level (.int n)) (tokens (toString n).toList) := by
  cases n with
  | ofNat n =>
    rw [show toString (Int.ofNat n) = toString n from rfl, tokens_digits]
    exact .number (number?_toString n)
  | negSucc n =>
    have htext : (toString (Int.negSucc n)).toList = '-' :: (toString (n + 1)).toList := by
      rw [show toString (Int.negSucc n) = "-" ++ toString (n + 1) from rfl, String.toList_append]
      rfl
    rw [htext, tokens_single ⟨rfl, rfl, by decide⟩, tokens_digits, level,
      if_pos (Int.negSucc_lt_zero n)]
    exact .negative (Nat.le_refl _) (number?_toString (n + 1))

theorem Expr.untyped_eq_asExpr {e : Expr} {t : TypeRef} (h : e.untyped = t.asExpr) :
    (∃ name, e = .ident name) ∨ e = .type t := by
  cases e with
  | ident name => exact Or.inl ⟨name, rfl⟩
  | type u =>
    have htype := congrArg Expr.asType? h
    rw [untyped, TypeRef.asType?_asExpr, TypeRef.asType?_asExpr] at htype
    cases htype
    exact Or.inr rfl
  | _ => cases t <;> simp [untyped, TypeRef.asExpr] at h

/-- What is called is no type in parentheses, since the printer puts types in none. -/
theorem not_parenthesizedType {e : Expr} (he : e.isPlain = true)
    (h : Reads (.expr e.level e.untyped) (tokens e.render.toList)) :
    ¬ ParenthesizedType (tokens (parenthesize primaryLevel e.level e.render).toList) := by
  rintro ⟨t, us, ht, htokens⟩
  have hreads := reads_parenthesize h primaryLevel
  have htype : Reads (.expr primaryLevel t.asExpr)
      (tokens (parenthesize primaryLevel e.level e.render).toList) := by
    rw [htokens]
    exact .parens (.type ht)
  -- then it is both itself and the type, but types are printed without parentheses
  have hsame := hreads.unique htype (by decide) (by decide)
  rcases Expr.untyped_eq_asExpr hsame with ⟨name, rfl⟩ | rfl
  · have hname : tokens (parenthesize primaryLevel (Expr.ident name).level name).toList = [.word name] :=
      tokens_name he
    cases hname.symm.trans htokens
  · obtain ⟨word, rest, hword, -⟩ := (t.reads_render he).exists_word
    cases hword.symm.trans htokens

theorem reads_argument {e : Expr} (he : (e.isPlain || e.isOutput) = true)
    (h : e.isPlain = true → Reads (.expr e.level e.untyped) (tokens e.render.toList)) :
    Reads (.argument e.untyped) (tokens e.render.toList) := by
  rcases Bool.or_eq_true_iff.1 he with hplain | houtput
  · exact .value ((h hplain).weaken e.conditionalLevel_le_level)
  · cases e with
    | outVar name =>
      have htext : (Expr.outVar name).render.toList =
          "out".toList ++ ' ' :: ("var".toList ++ ' ' :: name.toList) := by
        simp [Expr.render]
      rw [htext, tokens_word_blank (by decide) (by decide), tokens_word_blank (by decide) (by decide),
        tokens_name houtput]
      exact .outVar houtput
    | _ => cases houtput

mutual

/-- **Printed expressions are read back**, at their own levels. -/
theorem Expr.reads_render : ∀ e : Expr, e.isPlain = true →
    Reads (.expr e.level e.untyped) (tokens e.render.toList)
  | .ident name, h => by
    rw [render, tokens_name h]
    exact .type (.named h)
  | .this, _ => .this
  | .null, _ => .null
  | .bool true, _ => .yes
  | .bool false, _ => .no
  | .int n, _ => Expr.reads_int n
  | .type t, h => .type (t.reads_render h)
  | .member target name, h => by
    rw [isPlain, Bool.and_eq_true] at h
    have htarget := reads_parenthesize (target.reads_render h.1) primaryLevel
    have htext : (Expr.member target name).render.toList =
        (parenthesize primaryLevel target.level target.render).toList ++ '.' :: name.toList := by
      simp [render]
    rw [htext, tokens_append_single ⟨rfl, rfl, by decide⟩, tokens_name h.2]
    exact .member htarget h.2
  | .index target position, h => by
    rw [isPlain, Bool.and_eq_true] at h
    have htarget := reads_parenthesize (target.reads_render h.1) primaryLevel
    have hposition := (position.reads_render h.2).weaken position.conditionalLevel_le_level
    have htext : (Expr.index target position).render.toList =
        (parenthesize primaryLevel target.level target.render).toList ++
          '[' :: (position.render.toList ++ ']' :: []) := by
      simp [render]
    rw [htext, tokens_append_single ⟨rfl, rfl, by decide⟩, tokens_append_single ⟨rfl, rfl, by decide⟩]
    exact .index htarget hposition
  | .call callee arguments, h => by
    rw [isPlain, Bool.and_eq_true] at h
    have hcallee := callee.reads_render h.1
    have htext : (Expr.call callee arguments).render.toList =
        (parenthesize primaryLevel callee.level callee.render).toList ++
          '(' :: ((joinWith ", " (renderAll arguments)).toList ++ ')' :: []) := by
      simp [render]
    rw [htext, tokens_append_single ⟨rfl, rfl, by decide⟩, tokens_append_single ⟨rfl, rfl, by decide⟩]
    exact .call (reads_parenthesize hcallee _) (not_parenthesizedType h.1 hcallee)
      (Expr.reads_arguments arguments h.2)
  | .new t arguments, h => by
    rw [isPlain, Bool.and_eq_true] at h
    have htext : (Expr.new t arguments).render.toList = "new".toList ++
        ' ' :: (t.render.toList ++
          '(' :: ((joinWith ", " (renderAll arguments)).toList ++ ')' :: [])) := by
      simp [render]
    rw [htext, tokens_word_blank (by decide) (by decide), tokens_append_single ⟨rfl, rfl, by decide⟩,
      tokens_append_single ⟨rfl, rfl, by decide⟩]
    exact .new (t.reads_render h.1) (Expr.reads_arguments arguments h.2)
  | .cast t operand, h => by
    rw [isPlain, Bool.and_eq_true] at h
    have hoperand := reads_parenthesize (operand.reads_render h.2) unaryLevel
    have htext : (Expr.cast t operand).render.toList = '(' :: (t.render.toList ++
        ')' :: (parenthesize unaryLevel operand.level operand.render).toList) := by
      simp [render]
    rw [htext, tokens_single ⟨rfl, rfl, by decide⟩, tokens_append_single ⟨rfl, rfl, by decide⟩]
    exact .cast (Nat.le_refl _) (t.reads_render h.1) hoperand
  | .asType operand t, h => by
    rw [isPlain, Bool.and_eq_true] at h
    have hoperand := reads_parenthesize (operand.reads_render h.1) relationalLevel
    have htext : (Expr.asType operand t).render.toList =
        (parenthesize relationalLevel operand.level operand.render).toList ++
          ' ' :: ("as".toList ++ ' ' :: t.render.toList) := by
      simp [render]
    rw [htext, tokens_append_blank, tokens_word_blank (by decide) (by decide)]
    exact .asType (Nat.le_refl _) hoperand (t.reads_render h.2)
  | .binary left op right, h => by
    rw [isPlain, Bool.and_eq_true] at h
    rw [render, tokens_operator]
    exact .binary (Nat.le_refl _) (reads_parenthesize (left.reads_render h.1) _)
      (reads_parenthesize (right.reads_render h.2) _)
  | .not operand, h => by
    have hoperand := reads_parenthesize (operand.reads_render h) unaryLevel
    have htext : (Expr.not operand).render.toList =
        '!' :: (parenthesize unaryLevel operand.level operand.render).toList := by
      simp [render]
    rw [htext, tokens_not hoperand]
    exact .not (Nat.le_refl _) hoperand
  | .conditional condition yes no, h => by
    rw [isPlain, Bool.and_eq_true, Bool.and_eq_true] at h
    have hcondition := reads_parenthesize (condition.reads_render h.1.1) (conditionalLevel + 1)
    have hyes := reads_parenthesize (yes.reads_render h.1.2) conditionalLevel
    have hno := reads_parenthesize (no.reads_render h.2) conditionalLevel
    have htext : (Expr.conditional condition yes no).render.toList =
        (parenthesize (conditionalLevel + 1) condition.level condition.render).toList ++ ' ' :: '?' ::
          ' ' :: ((parenthesize conditionalLevel yes.level yes.render).toList ++ ' ' :: ':' ::
            ' ' :: (parenthesize conditionalLevel no.level no.render).toList) := by
      simp [render]
    rw [htext, tokens_append_blank, tokens_single ⟨rfl, rfl, by decide⟩, tokens_blank,
      tokens_append_blank, tokens_single ⟨rfl, rfl, by decide⟩, tokens_blank]
    exact .conditional (Nat.le_refl _) hcondition hyes hno

theorem Expr.reads_arguments : ∀ es : List Expr, Expr.arePlain es = true →
    Reads (.arguments (Expr.untypedAll es)) (tokens (joinWith ", " (Expr.renderAll es)).toList)
  | [], _ => .none
  | [e], h => by
    rw [arePlain, Bool.and_eq_true] at h
    exact .last (reads_argument h.1 fun hplain => e.reads_render hplain)
  | e :: f :: rest, h => by
    rw [arePlain, Bool.and_eq_true] at h
    have htokens : tokens (joinWith ", " (renderAll (e :: f :: rest))).toList = _ :=
      tokens_comma e.render (joinWith ", " (renderAll (f :: rest)))
    rw [htokens]
    exact .more (reads_argument h.1 fun hplain => e.reads_render hplain)
      (Expr.reads_arguments (f :: rest) h.2)

end

/-- **Printed expressions are read back.** The parser gives back what was printed, it is all that the
grammar makes of the text, and so no two expressions have one text. Only a type that is a name is not told
apart from a value of that name. -/
theorem Expr.parse_render {e : Expr} (he : e.isPlain = true) :
    Expr.parse e.render = some e.untyped ∧
    (∀ f, Reads (.expr conditionalLevel f) (tokens e.render.toList) ↔ f = e.untyped) ∧
    ∀ f : Expr, f.isPlain = true → f.render = e.render → f.untyped = e.untyped := by
  have hreads (f : Expr) (hf : f.isPlain = true) :
      Reads (.expr conditionalLevel f.untyped) (tokens f.render.toList) :=
    (f.reads_render hf).weaken f.conditionalLevel_le_level
  refine ⟨?_, fun f => ⟨fun hf => ?_, ?_⟩, fun f hf htext => ?_⟩
  · rw [parse, (hreads e he).parseExpr_eq]
  · exact hf.unique (hreads e he) (Nat.le_refl _) (Nat.le_refl _)
  · rintro rfl
    exact hreads e he
  · have hsame := hreads f hf
    rw [htext] at hsame
    exact hsame.unique (hreads e he) (Nat.le_refl _) (Nat.le_refl _)

/-- An expression with operators of all levels. -/
def sampleExpr : Expr :=
  .conditional
    (.binary
      (.binary (.binary (.ident "a") .add (.ident "b")) .multiply (.int (-5)))
      .equal (.member (.cast (.named "T") (.ident "x")) "y"))
    (.index (.call (.type (.named "f")) [.outVar "z", .not (.ident "a")]) (.int 3))
    (.asType (.new (.generic "List" [.named "U"]) []) (.named "V"))

theorem Expr.parse_render_sample :
    sampleExpr.isPlain = true ∧
    sampleExpr.render =
      "(a + b) * -5 == ((T)x).y ? f(out var z, !a)[3] : new List<U>() as V" ∧
    Expr.parse "(a + b) * -5 == ((T)x).y ? f(out var z, !a)[3] : new List<U>() as V" =
      some sampleExpr.untyped := by
  have hplain : sampleExpr.isPlain = true := by decide
  have htext : sampleExpr.render =
      "(a + b) * -5 == ((T)x).y ? f(out var z, !a)[3] : new List<U>() as V" := by
    decide
  exact ⟨hplain, htext, htext ▸ (parse_render hplain).1⟩

end Classwright.Code
