import Classwright.Emit.Names
import Classwright.Model.Basic

/-!
# Equality members

The generated `Equals` leaves as soon as a property differs. Containers are compared level by
level: lists in order, maps key by key.
-/

namespace Classwright.Emit

open Code

/-- Whether values are compared element by element. -/
def isContainer : Comparison → Bool
  | .sequence _ | .unordered _ => true
  | _ => false

/-- `return false;`. -/
def returnFalse : Stmt := .ret (.bool false)

/-- The comparer of a name. -/
def comparerInstance (comparer : String) : Expr := .member (.ident comparer) "Instance"

/-- Goes on with two elements: with locals for them if they are containers, so that deeper levels
index a name. -/
def withElements (named : Bool) (left right : Expr) (level : Nat)
    (body : Expr → Expr → List Stmt) : List Stmt :=
  if named then
    [.var (numbered "left" level) left, .var (numbered "right" level) right] ++
      body (.ident (numbered "left" level)) (.ident (numbered "right" level))
  else body left right

/-- The text of a value, or `null` for `null`. -/
def textOf (value text : Expr) : Expr := .conditional value.isNull .null text

/-- The text of a URI as it was written. -/
def uriText (value : Expr) : Expr := textOf value (.member value "OriginalString")

/-- Whether two URIs are written alike. -/
def uriEquals (left right : Expr) : Expr :=
  .call (.member (.ident "string") "Equals")
    [uriText left, uriText right, .member (.ident "StringComparison") "Ordinal"]

/-- Leaves with `false` if a condition holds. -/
def leaveIf (condition : Expr) : Stmt := .ifThen condition [returnFalse]

/-- Compares two containers that are not the same: neither may be `null`, and their sizes agree. -/
def comparedContainers (left right : Expr) (loop : Stmt) : List Stmt :=
  [.ifThen (.not (referenceEquals left right)) [
    leaveIf (left.isNull.orElse right.isNull),
    leaveIf ((count left).notEqualTo (count right)),
    loop]]

/-- Statements that leave with `false` as soon as `left` and `right` differ. -/
def equalStatements (left right : Expr) (comparison : Comparison) (shape : Shape) (level : Nat) :
    List Stmt :=
  match comparison with
  | .value =>
    let differs :=
      match shape with
      | .scalar .any => .not (objectEquals left right)
      | .scalar .uri => .not (uriEquals left right)
      | _ => left.notEqualTo right
    [leaveIf differs]
  | .structural _ => [leaveIf (.not (objectEquals left right))]
  | .custom comparer =>
    [leaveIf (.not (.call (.member (comparerInstance comparer) "Equals") [left, right]))]
  | .sequence inner =>
    let index := numbered "index" level
    let body := withElements (isContainer inner) (.index left (.ident index))
      (.index right (.ident index)) level fun l r =>
        equalStatements l r inner shape.element (level + 1)
    comparedContainers left right (.forBelow index (count left) body)
  | .unordered inner =>
    let entry := numbered "entry" level
    let found := numbered "other" level
    let lookup :=
      .call (.member right "TryGetValue") [.member (.ident entry) "Key", .outVar found]
    let value : Expr := .member (.ident entry) "Value"
    let body := leaveIf (.not lookup) ::
      equalStatements value (.ident found) inner shape.element (level + 1)
    comparedContainers left right (.forEach entry none left body)

/-- `Equals` for any object. -/
def equalsObject (c : ClassModel) : MethodDecl where
  name := "Equals"
  modifiers := ["public", "override"]
  params := [⟨"obj", .named "object"⟩]
  returns := some (.named "bool")
  body := some [.ret (.call (.ident "Equals") [.asType (.ident "obj") (.named c.name)])]

/-- `Equals` for an object of the class. -/
def equalsTyped (c : ClassModel) : MethodDecl where
  name := "Equals"
  modifiers := ["public"]
  params := [⟨"other", .named c.name⟩]
  returns := some (.named "bool")
  body := some <|
    [.ifThen (referenceEquals (.ident "other") .null) [returnFalse],
      .ifThen (referenceEquals .this (.ident "other")) [.ret (.bool true)]] ++
    c.properties.flatMap (fun p =>
      equalStatements (.ident p.name) (.member (.ident "other") p.name) p.comparison p.shape 0) ++
    [.ret (.bool true)]

/-- An operator on two objects of the class. -/
def operator (c : ClassModel) (sign : String) (body : List Stmt) : MethodDecl where
  name := "operator " ++ sign
  modifiers := ["public", "static"]
  params := [⟨"left", .named c.name⟩, ⟨"right", .named c.name⟩]
  returns := some (.named "bool")
  body := some body

/-- The operator `==`. -/
def operatorEqual (c : ClassModel) : MethodDecl :=
  operator c "==" [
    .ifThen (referenceEquals (.ident "left") .null) [
      .ret (referenceEquals (.ident "right") .null)],
    .ret (.call (.member (.ident "left") "Equals") [.ident "right"])]

/-- The operator `!=`. -/
def operatorNotEqual (c : ClassModel) : MethodDecl :=
  operator c "!=" [.ret (.not ((Expr.ident "left").equalTo (.ident "right")))]

end Classwright.Emit
