import Classwright.Code.Syntax

/-!
# Text of expressions

An operand is put in parentheses exactly when it binds more loosely than its place calls for. The
levels are those of the C# grammar.
-/

namespace Classwright.Code

/-- Puts a text between others. -/
def joinWith (separator : String) : List String → String
  | [] => ""
  | [s] => s
  | s :: rest => s ++ separator ++ joinWith separator rest

mutual

/-- The text of a type. -/
def TypeRef.render : TypeRef → String
  | .named name => name
  | .generic name arguments => name ++ "<" ++ joinWith ", " (TypeRef.renderAll arguments) ++ ">"

/-- The texts of types. -/
def TypeRef.renderAll : List TypeRef → List String
  | [] => []
  | t :: rest => t.render :: TypeRef.renderAll rest

end

/-- The sign of an operator. -/
def BinaryOp.sign : BinaryOp → String
  | equal => "=="
  | notEqual => "!="
  | or => "||"
  | add => "+"
  | multiply => "*"

/-- Binding strength, from conditionals to primary expressions. -/
def BinaryOp.level : BinaryOp → Nat
  | or => 2
  | equal | notEqual => 7
  | add => 9
  | multiply => 10

namespace Expr

/-- The level of conditional expressions. -/
def conditionalLevel : Nat := 1

/-- The level of conversions with `as`. -/
def relationalLevel : Nat := 8

/-- The level of negations, casts and negative numbers. -/
def unaryLevel : Nat := 11

/-- The level of expressions that never need parentheses. -/
def primaryLevel : Nat := 12

/-- How strongly an expression binds. -/
def level : Expr → Nat
  | conditional .. => conditionalLevel
  | binary _ op _ => op.level
  | asType .. => relationalLevel
  | not _ | cast .. => unaryLevel
  | int n => if n < 0 then unaryLevel else primaryLevel
  | _ => primaryLevel

/-- The text of an operand, in parentheses if it binds more loosely than `least`. -/
def parenthesize (least level : Nat) (text : String) : String :=
  if level < least then "(" ++ text ++ ")" else text

mutual

/-- The text of an expression. -/
def render : Expr → String
  | ident name => name
  | this => "this"
  | null => "null"
  | bool true => "true"
  | bool false => "false"
  | int n => toString n
  | type t => t.render
  | member target name => parenthesize primaryLevel target.level target.render ++ "." ++ name
  | index target position =>
    parenthesize primaryLevel target.level target.render ++ "[" ++ position.render ++ "]"
  | call callee arguments =>
    parenthesize primaryLevel callee.level callee.render ++
      "(" ++ joinWith ", " (renderAll arguments) ++ ")"
  | new t arguments => "new " ++ t.render ++ "(" ++ joinWith ", " (renderAll arguments) ++ ")"
  | cast t operand =>
    "(" ++ t.render ++ ")" ++ parenthesize unaryLevel operand.level operand.render
  | asType operand t =>
    parenthesize relationalLevel operand.level operand.render ++ " as " ++ t.render
  | binary left op right =>
    parenthesize op.level left.level left.render ++ " " ++ op.sign ++ " " ++
      parenthesize (op.level + 1) right.level right.render
  | not operand => "!" ++ parenthesize unaryLevel operand.level operand.render
  | conditional condition yes no =>
    parenthesize (conditionalLevel + 1) condition.level condition.render ++ " ? " ++
      parenthesize conditionalLevel yes.level yes.render ++ " : " ++
      parenthesize conditionalLevel no.level no.render
  | outVar name => "out var " ++ name

/-- The texts of expressions. -/
def renderAll : List Expr → List String
  | [] => []
  | e :: rest => e.render :: renderAll rest

end

end Expr

end Classwright.Code
