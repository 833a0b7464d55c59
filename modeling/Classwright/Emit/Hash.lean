import Classwright.Emit.Equality
import Classwright.Json.Hash

/-!
# The hash member

The generated `GetHashCode` folds the properties in order. A `null` folds nothing; a map folds the
sum over its entries, which does not depend on their order.
-/

namespace Classwright.Emit

open Code

/-- Takes a part into an accumulator. -/
def foldInto (acc : String) (hash : Expr) : Stmt :=
  .assign (.ident acc) (.binary (.binary (.ident acc) .multiply (.int hashFactor.toInt)) .add hash)

/-- The hash of a value. -/
def hashCode (value : Expr) : Expr := .call (.member value "GetHashCode") []

/-- Takes a part into an accumulator unless the value is `null`. -/
def foldUnlessNull (acc : String) (value hash : Expr) : List Stmt :=
  [.ifThen value.isNotNull [foldInto acc hash]]

/-- Statements that take the hash of `value` into the accumulator `acc`. -/
def hashStatements (acc : String) (value : Expr) (comparison : Comparison) (shape : Shape)
    (level : Nat) : List Stmt :=
  match comparison with
  | .value =>
    if !shape.isReferenceType then [foldInto acc (hashCode value)]
    else if shape = .scalar .uri then
      foldUnlessNull acc value (hashCode (.member value "OriginalString"))
    else foldUnlessNull acc value (hashCode value)
  | .structural _ => foldUnlessNull acc value (hashCode value)
  | .custom comparer =>
    foldUnlessNull acc value (.call (.member (comparerInstance comparer) "GetHashCode") [value])
  | .sequence inner =>
    let item := numbered "item" level
    [.ifThen value.isNotNull [
      .forEach item none value (hashStatements acc (.ident item) inner shape.element (level + 1))]]
  | .unordered inner =>
    let sum := numbered "sum" level
    let entry := numbered "entry" level
    let entryHash := numbered "entry_hash" level
    let body :=
      [.declare entryHash (some (.named "int")) (hashCode (.member (.ident entry) "Key"))] ++
      hashStatements entryHash (.member (.ident entry) "Value") inner shape.element (level + 1) ++
      [.assign (.ident sum) (.binary (.ident sum) .add (.ident entryHash))]
    [.ifThen value.isNotNull [
      .declare sum (some (.named "int")) (.int 0),
      .forEach entry none value body,
      foldInto acc (.ident sum)]]

/-- `GetHashCode`. -/
def getHashCode (c : ClassModel) : MethodDecl :=
  let folds := c.properties.flatMap fun p =>
    hashStatements "result" (.ident p.name) p.comparison p.shape 0
  { name := "GetHashCode"
    modifiers := ["public", "override"]
    returns := some (.named "int")
    body := some <|
      [.declare "result" (some (.named "int")) (.int hashSeed.toInt)] ++
      (if folds.isEmpty then [] else [.unchecked folds]) ++
      [.ret (.ident "result")] }

end Classwright.Emit
