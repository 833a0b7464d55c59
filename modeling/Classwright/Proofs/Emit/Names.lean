import Classwright.Emit.Names
import Classwright.Proofs.Text.Words

/-!
# Names of locals

Which names a method declares, when two locals with a level have the same name, and why parameters
are no such locals.
-/

namespace Classwright

/-! ### Declared names -/

namespace Code

mutual

/-- The locals that an expression declares. -/
def Expr.declared : Expr → List String
  | .outVar name => [name]
  | .member target _ => target.declared
  | .index target position => target.declared ++ position.declared
  | .call callee arguments => callee.declared ++ Expr.declaredAll arguments
  | .new _ arguments => Expr.declaredAll arguments
  | .cast _ operand => operand.declared
  | .asType operand _ => operand.declared
  | .binary left _ right => left.declared ++ right.declared
  | .not operand => operand.declared
  | .conditional condition yes no => condition.declared ++ yes.declared ++ no.declared
  | .ident _ | .this | .null | .bool _ | .int _ | .type _ => []

/-- The locals that expressions declare. -/
def Expr.declaredAll : List Expr → List String
  | [] => []
  | e :: rest => e.declared ++ Expr.declaredAll rest

end

mutual

/-- The locals that a statement declares, at any depth. -/
def Stmt.declared : Stmt → List String
  | .expr e => e.declared
  | .assign target value => target.declared ++ value.declared
  | .declare name _ init => name :: init.declared
  | .ret e => e.declared
  | .ifElse condition yes no =>
    condition.declared ++ Stmt.declaredAll yes ++ Stmt.declaredAll no
  | .forBelow index bound body => index :: bound.declared ++ Stmt.declaredAll body
  | .forEach item _ items body => item :: items.declared ++ Stmt.declaredAll body
  | .switch subject cases otherwise =>
    subject.declared ++ Stmt.declaredCases cases ++ Stmt.declaredAll otherwise
  | .raise e => e.declared
  | .unchecked body => Stmt.declaredAll body

/-- The locals that statements declare. -/
def Stmt.declaredAll : List Stmt → List String
  | [] => []
  | stmt :: rest => stmt.declared ++ Stmt.declaredAll rest

/-- The locals that the cases of a switch declare. -/
def Stmt.declaredCases : List (Expr × List Stmt) → List String
  | [] => []
  | (label, body) :: rest => label.declared ++ Stmt.declaredAll body ++ Stmt.declaredCases rest

end

theorem Stmt.declaredAll_append (xs ys : List Stmt) :
    Stmt.declaredAll (xs ++ ys) = Stmt.declaredAll xs ++ Stmt.declaredAll ys := by
  induction xs with
  | nil => rfl
  | cons x xs ih => rw [List.cons_append, declaredAll, declaredAll, ih, List.append_assoc]

theorem Stmt.declaredAll_flatMap {α : Type} (f : α → List Stmt) (l : List α) :
    Stmt.declaredAll (l.flatMap f) = l.flatMap fun x => Stmt.declaredAll (f x) := by
  induction l with
  | nil => rfl
  | cons x l ih => rw [List.flatMap_cons, List.flatMap_cons, declaredAll_append, ih]

/-- The parameters and locals of a method. -/
def MethodDecl.names (m : MethodDecl) : List String :=
  m.params.map Param.name ++ Stmt.declaredAll (m.body.getD [])

end Code

/-! ### Levels -/

namespace Emit

theorem toList_numbered (base : String) (level : Nat) :
    (numbered base level).toList = base.toList ++ '_' :: Nat.toDigits 10 level := by
  simp [numbered]

/-- Names without a mark are the names of no level. -/
theorem ne_numbered {name : String} (h : '_' ∉ name.toList) (base : String) (level : Nat) :
    name ≠ numbered base level := by
  rintro rfl
  rw [toList_numbered] at h
  exact h (List.mem_append_right _ List.mem_cons_self)

/-- What stands after the last mark that does not occur in it is known, and so is what stands
before. -/
theorem eq_of_append_cons_eq {α : Type} {mark : α} {xs ys us vs : List α} (hus : mark ∉ us)
    (hvs : mark ∉ vs) (h : xs ++ mark :: us = ys ++ mark :: vs) : xs = ys ∧ us = vs := by
  rcases List.append_eq_append_iff.1 h with ⟨as, rfl, h'⟩ | ⟨as, rfl, h'⟩
  · cases as with
    | nil =>
      rw [List.nil_append, List.cons.injEq] at h'
      exact ⟨(List.append_nil _).symm, h'.2⟩
    | cons a as =>
      rw [List.cons_append, List.cons.injEq] at h'
      exact absurd (h'.2 ▸ List.mem_append_right as List.mem_cons_self) hus
  · cases as with
    | nil =>
      rw [List.nil_append, List.cons.injEq] at h'
      exact ⟨List.append_nil _, h'.2.symm⟩
    | cons a as =>
      rw [List.cons_append, List.cons.injEq] at h'
      exact absurd (h'.2 ▸ List.mem_append_right as List.mem_cons_self) hvs

/-- **Locals of different levels have different names**, and so have locals for different things. -/
theorem numbered_inj {base base' : String} {i j : Nat} :
    numbered base i = numbered base' j ↔ base = base' ∧ i = j := by
  constructor
  · intro h
    have hlist := congrArg String.toList h
    rw [toList_numbered, toList_numbered] at hlist
    -- digits hold no mark, so the last mark separates the level
    obtain ⟨hbase, hdigits⟩ := eq_of_append_cons_eq Nat.underscore_not_in_toDigits
      Nat.underscore_not_in_toDigits hlist
    refine ⟨String.toList_inj.1 hbase, ?_⟩
    rw [← Nat.ofDigitChars_ten_toDigits (n := i), hdigits, Nat.ofDigitChars_ten_toDigits]
  · rintro ⟨rfl, rfl⟩
    rfl

/-- Parameters are not named like the locals of a level. -/
theorem parameterName_ne_numbered (propertyName base : String) (level : Nat) :
    parameterName propertyName ≠ numbered base level := by
  have hname := Text.isMark_underscore.not_mem_lowerCamel propertyName
  refine ne_numbered ?_ base level
  unfold parameterName
  dsimp only
  split
  · rw [String.toList_append, List.mem_append, not_or]
    exact ⟨by decide, hname⟩
  · exact hname

end Emit

end Classwright
