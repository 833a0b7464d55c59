import Classwright.Emit.Equality

/-!
# The ordering member

The generated `CompareTo` leaves with the first result that is not zero. `null` comes first, shorter
lists come before longer ones, and maps are compared by their sorted keys and then by their values.
A comparer that a hint names defines equality only, so such a property is ordered by its shape.
-/

namespace Classwright.Emit

open Code

/-- The local that holds the result of the last comparison. -/
def compareResult : String := "compareResult"

/-- Stores a result and leaves with it unless it is zero. -/
def setAndCheck (result : Expr) : List Stmt :=
  [.assign (.ident compareResult) result,
    .ifThen ((Expr.ident compareResult).notEqualTo (.int 0)) [.ret (.ident compareResult)]]

/-- The order of two texts by their code units. -/
def ordinal (left right : Expr) : Expr :=
  .call (.member (.ident "string") "CompareOrdinal") [left, right]

/-- The text of an object, or `null` for `null`. -/
def objectText (value : Expr) : Expr := textOf value (.call (.member value "ToString") [])

/-- The order of two primitive values. -/
def scalarComparison (left right : Expr) : Primitive → Expr
  | .string => ordinal left right
  | .uri => ordinal (uriText left) (uriText right)
  | .any => ordinal (objectText left) (objectText right)
  | .integer | .number | .boolean | .dateTime => .call (.member left "CompareTo") [right]

/-- The order of two objects of a class. -/
def classComparison (className : String) (left right : Expr) : Expr :=
  .call (.member (.member (.type (.generic "Comparer" [.named className])) "Default") "Compare")
    [left, right]

/-- Compares two containers that are not the same: `null` first, then by size. -/
def orderedContainers (left right : Expr) (rest : List Stmt) : List Stmt :=
  [.ifThen (.not (referenceEquals left right)) <|
    [.ifThen left.isNull [.ret (.int (-1))], .ifThen right.isNull [.ret (.int 1)]] ++
    setAndCheck (.call (.member (count left) "CompareTo") [count right]) ++
    rest]

/-- Compares two lists. -/
def orderSequence (named : Bool) (left right : Expr) (level : Nat)
    (element : Expr → Expr → List Stmt) : List Stmt :=
  let index := numbered "index" level
  orderedContainers left right [
    .forBelow index (count left) <|
      withElements named (.index left (.ident index)) (.index right (.ident index)) level element]

/-- The keys of a map as a list. -/
def keyList (map : Expr) : Expr := .new (.generic "List" [.named "string"]) [.member map "Keys"]

/-- Sorts a list of keys. -/
def sortKeys (keys : String) : Stmt :=
  .expr (.call (.member (.ident keys) "Sort") [.member (.ident "StringComparer") "Ordinal"])

/-- Compares two maps. -/
def orderUnordered (named : Bool) (left right : Expr) (level : Nat)
    (element : Expr → Expr → List Stmt) : List Stmt :=
  let leftKeys := numbered "left_keys" level
  let rightKeys := numbered "right_keys" level
  let index := numbered "index" level
  let leftKey : Expr := .index (.ident leftKeys) (.ident index)
  let rightKey : Expr := .index (.ident rightKeys) (.ident index)
  let bound := count (.ident leftKeys)
  orderedContainers left right [
    .var leftKeys (keyList left),
    sortKeys leftKeys,
    .var rightKeys (keyList right),
    sortKeys rightKeys,
    .forBelow index bound (setAndCheck (ordinal leftKey rightKey)),
    .forBelow index bound <|
      withElements named (.index left leftKey) (.index right rightKey) level element]

/-- Statements that leave with the first result that is not zero, by the shape alone. -/
def orderByShape (shape : Shape) (left right : Expr) (level : Nat) : List Stmt :=
  match shape with
  | .scalar p => setAndCheck (scalarComparison left right p)
  | .ofClass name => setAndCheck (classComparison name left right)
  | .array element =>
    orderSequence (isContainer element.comparison) left right level fun l r =>
      orderByShape element l r (level + 1)
  | .map element =>
    orderUnordered (isContainer element.comparison) left right level fun l r =>
      orderByShape element l r (level + 1)

/-- Statements that leave with the first result that is not zero. -/
def orderStatements (left right : Expr) (comparison : Comparison) (shape : Shape) (level : Nat) :
    List Stmt :=
  match comparison with
  | .custom _ => orderByShape shape left right level
  | .value =>
    let primitive :=
      match shape with
      | .scalar p => p
      | _ => .any
    setAndCheck (scalarComparison left right primitive)
  | .structural name => setAndCheck (classComparison name left right)
  | .sequence inner =>
    orderSequence (isContainer inner) left right level fun l r =>
      orderStatements l r inner shape.element (level + 1)
  | .unordered inner =>
    orderUnordered (isContainer inner) left right level fun l r =>
      orderStatements l r inner shape.element (level + 1)

/-- The comparison that goes with a shape orders as the shape does. -/
theorem orderStatements_comparison (shape : Shape) (left right : Expr) (level : Nat) :
    orderStatements left right shape.comparison shape level =
      orderByShape shape left right level := by
  induction shape generalizing left right level with
  | scalar p => rfl
  | ofClass name => rfl
  | array element ih =>
    simp only [Shape.comparison, Shape.element, orderStatements, orderByShape, ih]
  | map element ih =>
    simp only [Shape.comparison, Shape.element, orderStatements, orderByShape, ih]

/-- `CompareTo`. -/
def compareTo (c : ClassModel) : MethodDecl where
  name := "CompareTo"
  modifiers := ["public"]
  params := [⟨"other", .named c.name⟩]
  returns := some (.named "int")
  body := some <|
    [.ifThen (referenceEquals (.ident "other") .null) [.ret (.int 1)],
      .ifThen (referenceEquals .this (.ident "other")) [.ret (.int 0)],
      .declare compareResult (some (.named "int")) (.int 0)] ++
    c.properties.flatMap (fun p =>
      orderStatements (.ident p.name) (.member (.ident "other") p.name) p.comparison p.shape 0) ++
    [.ret (.ident compareResult)]

end Classwright.Emit
