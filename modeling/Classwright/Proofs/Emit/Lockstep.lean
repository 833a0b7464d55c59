import Classwright.Emit.Hash
import Classwright.Emit.Order
import Classwright.Proofs.Instance.Lockstep

/-!
# Generated members in lockstep

The statements of `Equals`, `GetHashCode` and `CompareTo` come from walks over a comparison and a shape
as well, down to the elements of containers. Each walk has a guarded form, which gives up where the
comparison goes through elements that the shape does not have. From a comparison in lockstep with its
shape, and from a comparer, the two forms generate the same statements.

A comparer is called for equality and for the hash. It says nothing about the order, so there the walk
goes on with the comparison of the shape, and this one is guarded as well (`guardedOrder_custom`).
-/

namespace Classwright.Emit

open Code

/-- `equalStatements` with a guard at every level. -/
def guardedEqual (refusal : List Stmt) (left right : Expr) (comparison : Comparison) (shape : Shape)
    (level : Nat) : List Stmt :=
  if comparison.fits shape then
    match comparison with
    | .sequence inner =>
      let index := numbered "index" level
      let body := withElements (isContainer inner) (.index left (.ident index))
        (.index right (.ident index)) level fun l r =>
          guardedEqual refusal l r inner shape.element (level + 1)
      comparedContainers left right (.forBelow index (count left) body)
    | .unordered inner =>
      let entry := numbered "entry" level
      let found := numbered "other" level
      let lookup :=
        .call (.member right "TryGetValue") [.member (.ident entry) "Key", .outVar found]
      let value : Expr := .member (.ident entry) "Value"
      let body := leaveIf (.not lookup) ::
        guardedEqual refusal value (.ident found) inner shape.element (level + 1)
      comparedContainers left right (.forEach entry none left body)
    | comparison => equalStatements left right comparison shape level
  else refusal

/-- `hashStatements` with a guard at every level. -/
def guardedHash (refusal : List Stmt) (acc : String) (value : Expr) (comparison : Comparison)
    (shape : Shape) (level : Nat) : List Stmt :=
  if comparison.fits shape then
    match comparison with
    | .sequence inner =>
      let item := numbered "item" level
      [.ifThen value.isNotNull [
        .forEach item none value
          (guardedHash refusal acc (.ident item) inner shape.element (level + 1))]]
    | .unordered inner =>
      let sum := numbered "sum" level
      let entry := numbered "entry" level
      let entryHash := numbered "entry_hash" level
      let body :=
        [.declare entryHash (some (.named "int")) (hashCode (.member (.ident entry) "Key"))] ++
        guardedHash refusal entryHash (.member (.ident entry) "Value") inner shape.element
          (level + 1) ++
        [.assign (.ident sum) (.binary (.ident sum) .add (.ident entryHash))]
      [.ifThen value.isNotNull [
        .declare sum (some (.named "int")) (.int 0),
        .forEach entry none value body,
        foldInto acc (.ident sum)]]
    | comparison => hashStatements acc value comparison shape level
  else refusal

/-- `orderStatements` with a guard at every level, given what to do where a comparer is met. -/
def guardedOrderWith (custom : Shape → Expr → Expr → Nat → List Stmt) (refusal : List Stmt)
    (left right : Expr) (comparison : Comparison) (shape : Shape) (level : Nat) : List Stmt :=
  if comparison.fits shape then
    match comparison with
    | .custom _ => custom shape left right level
    | .sequence inner =>
      orderSequence (isContainer inner) left right level fun l r =>
        guardedOrderWith custom refusal l r inner shape.element (level + 1)
    | .unordered inner =>
      orderUnordered (isContainer inner) left right level fun l r =>
        guardedOrderWith custom refusal l r inner shape.element (level + 1)
    | comparison => orderStatements left right comparison shape level
  else refusal

/-- `orderStatements` with a guard at every level. From a comparer it goes on with the comparison of the
shape, in which no comparer is met again. -/
def guardedOrder (refusal : List Stmt) : Expr → Expr → Comparison → Shape → Nat → List Stmt :=
  guardedOrderWith (fun shape left right level =>
    guardedOrderWith (fun _ _ _ _ => refusal) refusal left right shape.comparison shape level) refusal

variable {comparison : Comparison} {shape : Shape}

theorem guardedEqual_eq (h : comparison.Lockstep shape) (refusal : List Stmt) (left right : Expr)
    (level : Nat) : guardedEqual refusal left right comparison shape level =
      equalStatements left right comparison shape level := by
  induction h generalizing left right level with
  | value p => rfl
  | structural name => rfl
  | sequence _ ih =>
    simp only [guardedEqual, Comparison.fits, if_true, Shape.element, equalStatements, ih]
  | unordered _ ih =>
    simp only [guardedEqual, Comparison.fits, if_true, Shape.element, equalStatements, ih]

theorem guardedHash_eq (h : comparison.Lockstep shape) (refusal : List Stmt) (acc : String)
    (value : Expr) (level : Nat) : guardedHash refusal acc value comparison shape level =
      hashStatements acc value comparison shape level := by
  induction h generalizing acc value level with
  | value p => rfl
  | structural name => rfl
  | sequence _ ih =>
    simp only [guardedHash, Comparison.fits, if_true, Shape.element, hashStatements, ih]
  | unordered _ ih =>
    simp only [guardedHash, Comparison.fits, if_true, Shape.element, hashStatements, ih]

theorem guardedOrderWith_eq (h : comparison.Lockstep shape)
    (custom : Shape → Expr → Expr → Nat → List Stmt) (refusal : List Stmt) (left right : Expr)
    (level : Nat) : guardedOrderWith custom refusal left right comparison shape level =
      orderStatements left right comparison shape level := by
  induction h generalizing left right level with
  | value p => rfl
  | structural name => rfl
  | sequence _ ih =>
    simp only [guardedOrderWith, Comparison.fits, if_true, Shape.element, orderStatements, ih]
  | unordered _ ih =>
    simp only [guardedOrderWith, Comparison.fits, if_true, Shape.element, orderStatements, ih]

theorem guardedOrder_eq (h : comparison.Lockstep shape) (refusal : List Stmt) (left right : Expr)
    (level : Nat) : guardedOrder refusal left right comparison shape level =
      orderStatements left right comparison shape level :=
  guardedOrderWith_eq h _ refusal left right level

theorem guardedOrder_custom (comparer : String) (refusal : List Stmt) (left right : Expr)
    (shape : Shape) (level : Nat) :
    guardedOrder refusal left right (.custom comparer) shape level =
      orderStatements left right (.custom comparer) shape level :=
  calc
    _ = guardedOrderWith (fun _ _ _ _ => refusal) refusal left right shape.comparison shape level :=
      rfl
    _ = orderStatements left right shape.comparison shape level :=
      guardedOrderWith_eq (Comparison.lockstep_comparison shape) _ refusal left right level
    _ = orderStatements left right (.custom comparer) shape level :=
      orderStatements_comparison shape left right level

end Classwright.Emit
