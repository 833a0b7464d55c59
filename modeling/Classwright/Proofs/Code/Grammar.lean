import Classwright.Code.Expression
import Classwright.Proofs.Code.Tokens

/-!
# A grammar of expressions

Which tokens are an expression, by the precedence levels of C#: conditionals, which group to the right,
then `||`, then `==` and `!=`, then `as`, then `+`, then `*`, which all group to the left, then `!`, casts
and negative numbers, and at last names, numbers and parentheses with members, indices and calls after
them.

* **`ReadsType`** — the tokens of a type.
* **`Reads`** — the tokens of an expression that stands where a level is called for. What stands in
  parentheses and could be a type is one, if an operand follows: `(T)(x)` is a cast and no call. There is
  no subtraction, so `(T)-5` is a cast as well.
-/

namespace Classwright.Code

/-! ## Names and numbers -/

/-- The words that stand for themselves. -/
def fixedWords : List String := ["this", "null", "true", "false", "new", "as", "out"]

/-- A word that can be a name. The identifiers of C# that are not reserved are among them. -/
def isName (word : String) : Bool :=
  word.toList.all isWordChar && word.toList.head?.any (fun c => !c.isDigit) &&
    !fixedWords.contains word

/-- The number that a word is. -/
def number? (word : String) : Option Nat :=
  if word.toList.all Char.isDigit && !word.isEmpty then some (Nat.ofDigitChars 10 word.toList 0) else none

theorem isName_iff {word : String} : isName word = true ↔
    (∀ c ∈ word.toList, isWordChar c = true) ∧ (∃ c rest, word.toList = c :: rest ∧ c.isDigit = false) ∧
      word ∉ fixedWords := by
  rw [isName, Bool.and_eq_true, Bool.and_eq_true, List.all_eq_true, Bool.not_eq_true',
    List.contains_eq_mem, decide_eq_false_iff_not, and_assoc]
  refine and_congr_right fun _ => and_congr_left fun _ => ?_
  cases word.toList <;> simp

theorem ne_empty_of_isName {word : String} (h : isName word = true) : word ≠ "" := by
  rintro rfl
  revert h
  decide

theorem number?_of_isName {word : String} (h : isName word = true) : number? word = none := by
  obtain ⟨-, ⟨c, rest, hword, hc⟩, -⟩ := isName_iff.1 h
  simp [number?, hword, hc]

theorem ne_of_isName {word : String} (h : isName word = true) (fixed : String)
    (hfixed : fixed ∈ fixedWords) : word ≠ fixed := by
  rintro rfl
  exact (isName_iff.1 h).2.2 hfixed

theorem number?_toString (n : Nat) : number? (toString n) = some n := by
  have hdigits : ∀ c ∈ Nat.toDigits 10 n, c.isDigit = true := fun c hc =>
    Nat.isDigit_of_mem_toDigits (by decide) (by decide) hc
  simpa [number?] using hdigits

/-! ## Types -/

/-- What is read as types. -/
inductive TypePhrase where
  | one (type : TypeRef)
  /-- Types between commas. -/
  | all (types : List TypeRef)

/-- The tokens of types. -/
inductive ReadsType : TypePhrase → List Token → Prop where
  | named {name : String} (hname : isName name = true) :
      ReadsType (.one (.named name)) [.word name]
  | generic {name : String} {arguments : List TypeRef} {ts : List Token} (hname : isName name = true)
      (harguments : ReadsType (.all arguments) ts) :
      ReadsType (.one (.generic name arguments)) (.word name :: .sign .less :: (ts ++ [.sign .greater]))
  | none : ReadsType (.all []) []
  | last {t : TypeRef} {ts : List Token} (ht : ReadsType (.one t) ts) : ReadsType (.all [t]) ts
  | more {t u : TypeRef} {rest : List TypeRef} {ts us : List Token} (ht : ReadsType (.one t) ts)
      (hrest : ReadsType (.all (u :: rest)) us) :
      ReadsType (.all (t :: u :: rest)) (ts ++ .sign .comma :: us)

theorem ReadsType.exists_word {t : TypeRef} {ts : List Token} (h : ReadsType (.one t) ts) :
    ∃ name rest, ts = .word name :: rest ∧ isName name = true := by
  cases h with
  | named hname => exact ⟨_, _, rfl, hname⟩
  | generic hname _ => exact ⟨_, _, rfl, hname⟩

/-! ## Expressions -/

/-- The sign of an operator, as a token. -/
def BinaryOp.token : BinaryOp → Sign
  | equal => .equal
  | notEqual => .notEqual
  | or => .or
  | add => .plus
  | multiply => .star

/-- A type where an expression stands. A name alone is taken as the name of a value. -/
def TypeRef.asExpr : TypeRef → Expr
  | named name => .ident name
  | generic name arguments => .type (.generic name arguments)

/-- What is read as expressions. -/
inductive Phrase where
  /-- An expression where a level is called for. -/
  | expr (level : Nat) (e : Expr)
  | argument (e : Expr)
  /-- Arguments between commas. -/
  | arguments (es : List Expr)

/-- A type in parentheses. -/
def ParenthesizedType (ts : List Token) : Prop :=
  ∃ t us, ReadsType (.one t) us ∧ ts = .sign .openParen :: (us ++ [.sign .closeParen])

open Classwright.Code.Expr (conditionalLevel relationalLevel unaryLevel primaryLevel)

/-- The tokens of expressions. -/
inductive Reads : Phrase → List Token → Prop where
  | this {l : Nat} : Reads (.expr l .this) [.word "this"]
  | null {l : Nat} : Reads (.expr l .null) [.word "null"]
  | yes {l : Nat} : Reads (.expr l (.bool true)) [.word "true"]
  | no {l : Nat} : Reads (.expr l (.bool false)) [.word "false"]
  | number {l n : Nat} {word : String} (hn : number? word = some n) :
      Reads (.expr l (.int n)) [.word word]
  | type {l : Nat} {t : TypeRef} {ts : List Token} (ht : ReadsType (.one t) ts) :
      Reads (.expr l t.asExpr) ts
  | parens {l : Nat} {e : Expr} {ts : List Token} (he : Reads (.expr conditionalLevel e) ts) :
      Reads (.expr l e) (.sign .openParen :: (ts ++ [.sign .closeParen]))
  | member {l : Nat} {e : Expr} {name : String} {ts : List Token} (he : Reads (.expr primaryLevel e) ts)
      (hname : isName name = true) : Reads (.expr l (.member e name)) (ts ++ [.sign .dot, .word name])
  | index {l : Nat} {e i : Expr} {ts us : List Token} (he : Reads (.expr primaryLevel e) ts)
      (hi : Reads (.expr conditionalLevel i) us) :
      Reads (.expr l (.index e i)) (ts ++ .sign .openBracket :: (us ++ [.sign .closeBracket]))
  | call {l : Nat} {e : Expr} {as : List Expr} {ts us : List Token}
      (he : Reads (.expr primaryLevel e) ts) (hcast : ¬ ParenthesizedType ts)
      (has : Reads (.arguments as) us) :
      Reads (.expr l (.call e as)) (ts ++ .sign .openParen :: (us ++ [.sign .closeParen]))
  | new {l : Nat} {t : TypeRef} {as : List Expr} {ts us : List Token} (ht : ReadsType (.one t) ts)
      (has : Reads (.arguments as) us) : Reads (.expr l (.new t as))
        (.word "new" :: (ts ++ .sign .openParen :: (us ++ [.sign .closeParen])))
  | not {l : Nat} {e : Expr} {ts : List Token} (hl : l ≤ unaryLevel)
      (he : Reads (.expr unaryLevel e) ts) : Reads (.expr l (.not e)) (.sign .not :: ts)
  | cast {l : Nat} {t : TypeRef} {e : Expr} {ts us : List Token} (hl : l ≤ unaryLevel)
      (ht : ReadsType (.one t) ts) (he : Reads (.expr unaryLevel e) us) :
      Reads (.expr l (.cast t e)) (.sign .openParen :: (ts ++ .sign .closeParen :: us))
  | negative {l n : Nat} {word : String} (hl : l ≤ unaryLevel) (hn : number? word = some n) :
      Reads (.expr l (.int (-n))) [.sign .minus, .word word]
  | binary {l : Nat} {a b : Expr} {op : BinaryOp} {ts us : List Token} (hl : l ≤ op.level)
      (ha : Reads (.expr op.level a) ts) (hb : Reads (.expr (op.level + 1) b) us) :
      Reads (.expr l (.binary a op b)) (ts ++ .sign op.token :: us)
  | asType {l : Nat} {e : Expr} {t : TypeRef} {ts us : List Token} (hl : l ≤ relationalLevel)
      (he : Reads (.expr relationalLevel e) ts) (ht : ReadsType (.one t) us) :
      Reads (.expr l (.asType e t)) (ts ++ .word "as" :: us)
  | conditional {l : Nat} {c y n : Expr} {ts us vs : List Token} (hl : l ≤ conditionalLevel)
      (hc : Reads (.expr (conditionalLevel + 1) c) ts) (hy : Reads (.expr conditionalLevel y) us)
      (hn : Reads (.expr conditionalLevel n) vs) : Reads (.expr l (.conditional c y n))
        (ts ++ .sign .question :: (us ++ .sign .colon :: vs))
  | value {e : Expr} {ts : List Token} (he : Reads (.expr conditionalLevel e) ts) :
      Reads (.argument e) ts
  | outVar {name : String} (hname : isName name = true) :
      Reads (.argument (.outVar name)) [.word "out", .word "var", .word name]
  | none : Reads (.arguments []) []
  | last {e : Expr} {ts : List Token} (he : Reads (.argument e) ts) : Reads (.arguments [e]) ts
  | more {e f : Expr} {rest : List Expr} {ts us : List Token} (he : Reads (.argument e) ts)
      (hrest : Reads (.arguments (f :: rest)) us) :
      Reads (.arguments (e :: f :: rest)) (ts ++ .sign .comma :: us)

/-- An expression can stand where a lower level is called for. -/
theorem Reads.weaken {l m : Nat} {e : Expr} {ts : List Token} (h : Reads (.expr l e) ts) (hm : m ≤ l) :
    Reads (.expr m e) ts := by
  cases h with
  | this => exact .this
  | null => exact .null
  | yes => exact .yes
  | no => exact .no
  | number hn => exact .number hn
  | type ht => exact .type ht
  | parens he => exact .parens he
  | member he hname => exact .member he hname
  | index he hi => exact .index he hi
  | call he hcast has => exact .call he hcast has
  | new ht has => exact .new ht has
  | not hl he => exact .not (Nat.le_trans hm hl) he
  | cast hl ht he => exact .cast (Nat.le_trans hm hl) ht he
  | negative hl hn => exact .negative (Nat.le_trans hm hl) hn
  | binary hl ha hb => exact .binary (Nat.le_trans hm hl) ha hb
  | asType hl he ht => exact .asType (Nat.le_trans hm hl) he ht
  | conditional hl hc hy hn => exact .conditional (Nat.le_trans hm hl) hc hy hn

/-- Whether a token can start an operand. -/
def Token.startsOperand : Token → Bool
  | word text => text != "as" && text != "out"
  | sign s => s == .openParen || s == .not || s == .minus

theorem startsOperand_of_number? {word : String} {n : Nat} (h : number? word = some n) :
    (Token.word word).startsOperand = true := by
  have hne (fixed : String) (hfixed : number? fixed = none) : word ≠ fixed := by
    rintro rfl
    cases h.symm.trans hfixed
  simp [Token.startsOperand, hne "as" (by decide), hne "out" (by decide)]

theorem startsOperand_of_isName {word : String} (h : isName word = true) :
    (Token.word word).startsOperand = true := by
  simp [Token.startsOperand, ne_of_isName h "as" (by decide), ne_of_isName h "out" (by decide)]

/-- **Expressions start with what starts an operand.** -/
theorem Reads.exists_token {p : Phrase} {ts : List Token} (h : Reads p ts) {l : Nat} {e : Expr}
    (hp : p = .expr l e) : ∃ t rest, ts = t :: rest ∧ t.startsOperand = true := by
  -- what starts the first operand starts the whole
  have happend {ts us : List Token} (hts : ∃ t rest, ts = t :: rest ∧ t.startsOperand = true) :
      ∃ t rest, ts ++ us = t :: rest ∧ t.startsOperand = true := by
    obtain ⟨t, rest, rfl, ht⟩ := hts
    exact ⟨t, rest ++ us, rfl, ht⟩
  induction h generalizing l e with
  | this | null | yes | no => exact ⟨_, _, rfl, rfl⟩
  | number hn => exact ⟨_, _, rfl, startsOperand_of_number? hn⟩
  | type ht =>
    obtain ⟨name, rest, rfl, hname⟩ := ht.exists_word
    exact ⟨_, _, rfl, startsOperand_of_isName hname⟩
  | parens | new | not | cast | negative => exact ⟨_, _, rfl, rfl⟩
  | member he hname ih => exact happend (ih rfl)
  | index he hi ih _ => exact happend (ih rfl)
  | call he hcast has ih _ => exact happend (ih rfl)
  | binary hl ha hb ih _ => exact happend (ih rfl)
  | asType hl he ht ih => exact happend (ih rfl)
  | conditional hl hc hy hn ih _ _ => exact happend (ih rfl)
  | value | outVar | none | last | more => cases hp

/-- The type that stands where an expression was read. -/
def Expr.asType? : Expr → Option TypeRef
  | ident name => some (.named name)
  | type t => some t
  | _ => none

theorem TypeRef.asType?_asExpr (t : TypeRef) : t.asExpr.asType? = some t := by
  cases t <;> rfl

/-- What starts with a word and stands where a type can stand is one. -/
theorem Reads.readsType {p : Phrase} {ts : List Token} (h : Reads p ts) {l : Nat} {e : Expr} {t : TypeRef}
    {word : String} {rest : List Token} (hp : p = .expr l e) (ht : e.asType? = some t)
    (hts : ts = .word word :: rest) : ReadsType (.one t) ts := by
  cases h with
  | type htype =>
    cases hp
    rw [TypeRef.asType?_asExpr] at ht
    cases ht
    exact htype
  | parens => cases hts
  | value | outVar | none | last | more => cases hp
  | _ =>
    cases hp
    cases ht

end Classwright.Code
