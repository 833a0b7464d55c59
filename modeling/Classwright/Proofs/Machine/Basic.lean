import Classwright.Emit.Copy
import Classwright.Emit.Equality
import Classwright.Emit.Hash
import Classwright.Emit.Order
import Classwright.Emit.Visitor
import Classwright.Json.Order

/-!
# A machine for generated code

The statements and expressions of generated code with their ordinary imperative meaning. Objects,
lists and dictionaries lie in a heap and are reached through references, and everything else is a
value. A method runs with locals of its own, which hide the properties of `this`.

## The architecture

* **`Value`**, **`Object`** and **`State`** are what a run works on.
* **`Program`** is what code runs in: the generated classes, and what comes from elsewhere.
* **`Run`** is what a run does: it ends with a result, or with a **`Fault`**. A dereferenced `null` is
  a fault of its own.
* **`Call.of`** says which method a call means. The library methods among them are part of the
  machine, and the members of a class are the generated ones.
* **`evaluate`**, **`executeAll`** and **`invoke`** run expressions, statements and methods. Loops
  and calls need not end, so a run has an **`Engine`** for the code inside of other code, and
  `engine prog depth` gives up below a depth. What a run does is what it does with the engines that
  go deep enough.
-/

namespace Classwright.Machine

open Code Emit

/-! ## States -/

/-- What locals, properties and containers hold. -/
inductive Value where
  | null
  /-- A scalar, or whatever a property of no known type holds. -/
  | leaf (value : Json)
  /-- A count, an index or a hash. -/
  | int (value : Int)
  /-- A reference to an object in the heap. -/
  | ref (address : Nat)
  /-- A key with its value, as loops over dictionaries meet them. -/
  | entry (key : String) (value : Value)
  /-- The keys of a dictionary, as they are when they are gone through. -/
  | keys (dictionary : Value)
deriving Repr, Inhabited

/-- A truth value. -/
abbrev Value.bool (b : Bool) : Value := leaf (.bool b)

/-- What lies in the heap. -/
inductive Object where
  /-- An object of a generated class, with its properties by name. -/
  | instanceOf (className : String) (properties : Fields Value)
  | list (items : List Value)
  | dictionary (entries : Fields Value)
deriving Repr, Inhabited

/-- A place in the heap. -/
structure Cell where
  object : Object
  /-- How often the object was written to. -/
  writes : Nat := 0
deriving Repr, Inhabited

/-- All objects, by their addresses. -/
abbrev Heap := List Cell

namespace Heap

/-- The object at an address. -/
def object? (heap : Heap) (address : Nat) : Option Object := heap[address]?.map Cell.object

/-- The class of an object, where the value is a reference to one. -/
def class? (heap : Heap) (r : Registry) : Value → Option ClassModel
  | .ref address =>
    match heap.object? address with
    | some (.instanceOf name _) => r.get? name
    | _ => none
  | _ => none

end Heap

/-- The heap and the locals of the method that runs, the last one that was declared first. -/
structure State where
  heap : Heap
  locals : Fields Value := []
deriving Repr, Inhabited

namespace State

/-- Declares locals. -/
def push (s : State) (locals : Fields Value) : State := { s with locals := locals ++ s.locals }

/-- Forgets the locals that were declared since there were `depth`. -/
def leave (s : State) (depth : Nat) : State :=
  { s with locals := s.locals.drop (s.locals.length - depth) }

/-- Puts objects behind all others. -/
def grow (s : State) (new : Heap) : State := { s with heap := s.heap ++ new }

/-- Puts an object in the place of another one. -/
def write (s : State) (address : Nat) (object : Object) : State :=
  { s with heap := s.heap.modify address fun cell => ⟨object, cell.writes + 1⟩ }

end State

/-! ## Programs -/

/-- Whether two scalars are the same, by an operator or by `Equals`. -/
abbrev LeafEquality := Json → Json → Bool

/-- Scalars as values. -/
def LeafEquality.plain : LeafEquality := fun a b => a.order b == .eq

/-- How scalars and counts are ordered. Only the sign of a result means something. -/
structure LeafOrder where
  /-- `string.CompareOrdinal`, and `StringComparer.Ordinal`. -/
  texts (a b : String) : Int
  /-- `CompareTo` of the types that are never `null`. -/
  values (a b : Json) : Int
  counts (m n : Int) : Int

/-- A number for a result. -/
def numberOf : Ordering → Int
  | .lt => -1
  | .eq => 0
  | .gt => 1

/-- Scalars in the order of values. -/
def LeafOrder.plain : LeafOrder where
  texts a b := numberOf ((Json.text a).order (.text b))
  values a b := numberOf (a.order b)
  counts m n := m - n

/-- What code runs in. -/
structure Program where
  /-- The generated classes. -/
  registry : Registry
  /-- The hashes of scalars. -/
  leafHash : LeafHash := .sip
  leafEqual : LeafEquality := .plain
  leafOrder : LeafOrder := .plain
  /-- What a visitor makes of an object of a class once the objects below it are replaced: new
  objects, and the value that takes the place of the object. -/
  substitute (className : String) (heap : Heap) (node : Value) : Heap × Value := ([], node)

instance : Coe Registry Program where
  coe registry := { registry }

/-! ## Runs -/

/-- Why a run fails. -/
inductive Fault where
  /-- `null` was dereferenced. -/
  | nullReference
  /-- An index or a key that a container does not have. -/
  | outOfRange
  /-- A container that changed during a loop over it. -/
  | modified
  /-- An exception that the code itself raises. -/
  | raised
  /-- Code that has no meaning. -/
  | illFormed
  /-- Not a fault of the code: the engine does not go as deep as the run. -/
  | tooDeep
deriving DecidableEq, Repr

/-- How a statement ends. -/
inductive Flow where
  | next
  | returned (value : Value)
deriving Repr, Inhabited

/-- What runs the code inside of other code. -/
structure Engine where
  evaluate (this : Value) (e : Expr) : StateT State (Except Fault) Value
  execute (this : Value) (stmt : Stmt) : StateT State (Except Fault) Flow
  /-- A loop over numbers, from one of them on. -/
  below (this : Value) (index : String) (bound : Expr) (body : List Stmt) (i : Nat) :
    StateT State (Except Fault) Flow

/-- What a run does to a state. -/
abbrev Run := ReaderT Engine (StateT State (Except Fault))

/-- The object behind a reference. -/
def object (v : Value) : Run Object := do
  match v with
  | .null => throw .nullReference
  | .ref address =>
    match (← get).heap.object? address with
    | some o => return o
    | none => throw .illFormed
  | _ => throw .illFormed

/-- The truth value of a condition. -/
def truth : Value → Run Bool
  | .leaf (.bool b) => return b
  | _ => throw .illFormed

/-- The value of a property. The count of a container is one, too. -/
def readMember (target : Value) (name : String) : Run Value := do
  match target with
  | .entry key value =>
    match name with
    | "Key" => return .leaf (.text key)
    | "Value" => return value
    | _ => throw .illFormed
  | .leaf (.text s) => if name = "OriginalString" then return .leaf (.text s) else throw .illFormed
  | target =>
    match ← object target with
    | .instanceOf _ properties =>
      match properties.get? name with
      | some v => return v
      | none => throw .illFormed
    | .list items => if name = "Count" then return .int items.length else throw .illFormed
    | .dictionary entries =>
      if name = "Count" then return .int entries.length
      else if name = "Keys" then return .keys target
      else throw .illFormed

/-- Writes to a property. -/
def writeMember (target : Value) (name : String) (v : Value) : Run Unit := do
  match target, ← object target with
  | .ref address, .instanceOf className properties =>
    modify (·.write address (.instanceOf className (properties.insert name v)))
  | _, _ => throw .illFormed

/-- The value of a name: a local, or else a property of `this`. -/
def readName (this : Value) (name : String) : Run Value := do
  match (← get).locals.get? name with
  | some v => return v
  | none => readMember this name

/-- Writes to a name. -/
def writeName (this : Value) (name : String) (v : Value) : Run Unit := do
  if (← get).locals.contains name then
    modify fun s => { s with locals := s.locals.insert name v }
  else writeMember this name v

/-- The element of a container at an index or under a key. -/
def readIndex (target position : Value) : Run Value := do
  match ← object target, position with
  | .list items, .int i =>
    match if i < 0 then none else items[i.toNat]? with
    | some v => return v
    | none => throw .outOfRange
  | .dictionary entries, .leaf (.text key) =>
    match entries.get? key with
    | some v => return v
    | none => throw .outOfRange
  | _, _ => throw .illFormed

/-- Writes to an element of a container. A dictionary gains the keys that it does not have. -/
def writeIndex (target position v : Value) : Run Unit := do
  match target, ← object target, position with
  | .ref address, .list items, .int i =>
    if 0 ≤ i ∧ i < items.length then modify (·.write address (.list (items.set i.toNat v)))
    else throw .outOfRange
  | .ref address, .dictionary entries, .leaf (.text key) =>
    modify (·.write address (.dictionary (entries.insert key v)))
  | _, _, _ => throw .illFormed

/-- What a dictionary has under a key. -/
def lookUp (target key : Value) : Run (Option Value) := do
  match ← object target, key with
  | .dictionary entries, .leaf (.text key) => return entries.get? key
  | _, _ => throw .illFormed

/-- What a loop over a container goes through. -/
def elements : Value → Run (List Value)
  | .keys dictionary => do
    match ← object dictionary with
    | .dictionary entries => return entries.map fun (key, _) => .leaf (.text key)
    | _ => throw .illFormed
  | collection => do
    match ← object collection with
    | .list items => return items
    | .dictionary entries => return entries.map fun (key, v) => .entry key v
    | .instanceOf .. => throw .illFormed

/-- How often a container was written to. -/
def writes : Value → Run Nat
  | .ref address => return ((← get).heap[address]?.map Cell.writes).getD 0
  | .keys dictionary => writes dictionary
  | _ => return 0

/-- A reference to a new object. -/
def allocate (o : Object) : Run Value := do
  let address := (← get).heap.length
  modify (·.grow [⟨o, 0⟩])
  return .ref address

/-- Whether two references lead to the same object. Nothing is said about the identity of scalars. -/
def sameReference : Value → Value → Run Bool
  | .null, .null => return true
  | .ref a, .ref b => return a == b
  | .null, .ref _ | .ref _, .null => return false
  | .null, .leaf _ | .leaf _, .null | .ref _, .leaf _ | .leaf _, .ref _ => return false
  | _, _ => throw .illFormed

/-- Whether two values are the same, by an operator that no class defines: scalars have values, and
everything in the heap has an identity. -/
def sameValue (equal : LeafEquality) : Value → Value → Run Bool
  | .leaf a, .leaf b => return equal a b
  | .int m, .int n => return m == n
  | a, b => sameReference a b

/-- A number as 32 bits hold it. -/
def wrap (n : Int) : Int := (Int32.ofInt n).toInt

/-- The result of an operation on numbers of 32 bits, which wraps around. -/
def arithmetic (op : Int → Int → Int) : Value → Value → Run Value
  | .int m, .int n => return .int (wrap (op m n))
  | _, _ => throw .illFormed

/-- A conversion to a class, with `null` for what is none of its objects. -/
def convert (type : TypeRef) (v : Value) : Run Value := do
  match type, v with
  | .named name, .ref address =>
    match (← get).heap.object? address with
    | some (.instanceOf className _) => return if className = name then v else .null
    | _ => return .null
  | _, _ => return .null

/-! ## Calls -/

/-- The methods that generated code calls. -/
inductive Call where
  /-- `ReferenceEquals(a, b)`. -/
  | referenceEquals (a b : Expr)
  /-- `Object.Equals(a, b)`. -/
  | objectEquals (a b : Expr)
  /-- `string.Equals(a, b, StringComparison.Ordinal)`. -/
  | textEquals (a b : Expr)
  /-- `string.CompareOrdinal(a, b)`. -/
  | textCompare (a b : Expr)
  /-- `Comparer<T>.Default.Compare(a, b)`. -/
  | defaultCompare (a b : Expr)
  /-- `keys.Sort(StringComparer.Ordinal)`. -/
  | sortTexts (keys : Expr)
  /-- `map.TryGetValue(key, out var found)`. -/
  | tryGetValue (map key : Expr) (found : String)
  /-- `VisitNullChecked(node)`. -/
  | visitNullChecked (node : Expr)
  /-- A method of `this`. -/
  | own (name : String) (arguments : List Expr)
  | method (target : Expr) (name : String) (arguments : List Expr)
  | unknown

/-- The method that a call means. -/
def Call.of : Expr → List Expr → Call
  | .member map "TryGetValue", [key, .outVar found] => tryGetValue map key found
  | .ident "ReferenceEquals", [a, b] => referenceEquals a b
  | .member (.ident "Object") "Equals", [a, b] => objectEquals a b
  | .member (.ident "string") "Equals", [a, b, .member (.ident "StringComparison") "Ordinal"] =>
    textEquals a b
  | .member (.ident "string") "CompareOrdinal", [a, b] => textCompare a b
  | .member (.member (.type (.generic "Comparer" [.named _])) "Default") "Compare", [a, b] =>
    defaultCompare a b
  | .member keys "Sort", [.member (.ident "StringComparer") "Ordinal"] => sortTexts keys
  | .ident "VisitNullChecked", [node] => visitNullChecked node
  | .ident name, arguments => own name arguments
  | .member target name, arguments => method target name arguments
  | _, _ => unknown

/-- The method of a class that a call runs. A call of `Equals` hands over an object of the class. -/
def method? (c : ClassModel) : String → Option MethodDecl
  | "Equals" => some (equalsTyped c)
  | "GetHashCode" => some (getHashCode c)
  | "CompareTo" => some (compareTo c)
  | "Init" => some (initMethod c)
  | _ => none

/-- A constructor, as a method of the new object. -/
def constructorMethod (d : ConstructorDecl) : MethodDecl where
  name := ".ctor"
  params := d.params
  body := some d.body

/-- What a property holds before anything is assigned to it. -/
def defaultValue : Shape → Value
  | .scalar .integer | .scalar .number => .leaf (.number (.integer 0))
  | .scalar .boolean => .bool false
  | .scalar .dateTime => .leaf (.text "0001-01-01T00:00:00")
  | _ => .null

/-! ## Running code -/

/-- The value of an expression. -/
def evaluate (this : Value) (e : Expr) : Run Value := fun engine => engine.evaluate this e

/-- Runs a statement. -/
def execute (this : Value) (stmt : Stmt) : Run Flow := fun engine => engine.execute this stmt

/-- Runs a loop over numbers below a bound from `i` on. -/
def below (this : Value) (index : String) (bound : Expr) (body : List Stmt) (i : Nat) : Run Flow :=
  fun engine => engine.below this index bound body i

/-- The values of expressions, from left to right. -/
def evaluateAll (this : Value) : List Expr → Run (List Value)
  | [] => return []
  | e :: rest => do return (← evaluate this e) :: (← evaluateAll this rest)

/-- Runs statements until one returns. -/
def executeAll (this : Value) : List Stmt → Run Flow
  | [] => return .next
  | stmt :: rest => do
    match ← execute this stmt with
    | .next => executeAll this rest
    | .returned v => return .returned v

/-- Runs statements with more locals. These are gone afterwards, and so are those that the statements
declare. -/
def block (this : Value) (locals : Fields Value) (body : List Stmt) : Run Flow := do
  let depth := (← get).locals.length
  modify (·.push locals)
  let flow ← executeAll this body
  modify (·.leave depth)
  return flow

/-- Runs a loop over a container through the values that are left. -/
def each (this : Value) (item : String) (body : List Stmt) (collection : Value) (version : Nat) :
    List Value → Run Flow
  | [] => do
    if (← writes collection) = version then return .next else throw .modified
  | v :: rest => do
    if (← writes collection) = version then
      match ← block this [(item, v)] body with
      | .next => each this item body collection version rest
      | .returned v => return .returned v
    else throw .modified

/-- The result of a method. It has locals for its parameters, and those of its caller are back when
it ends. -/
def invoke (this : Value) (m : MethodDecl) (arguments : List Value) : Run Value := do
  let outer := (← get).locals
  modify fun s => { s with locals := (m.params.map Param.name).zip arguments }
  let flow ← executeAll this (m.body.getD [])
  modify fun s => { s with locals := outer }
  match flow with
  | .returned v => return v
  | .next => return .null

/-- The result of a method on an object. -/
def callMethod (prog : Program) (target : Value) (name : String) (arguments : List Value) :
    Run Value := do
  match target with
  | .leaf v =>
    if name = "GetHashCode" then return .int (v.hash prog.leafHash).toInt
    else
      match name, arguments with
      | "CompareTo", [.leaf w] => return .int (prog.leafOrder.values v w)
      | _, _ => throw .illFormed
  | .int m =>
    match name, arguments with
    | "CompareTo", [.int n] => return .int (prog.leafOrder.counts m n)
    | _, _ => throw .illFormed
  | target =>
    match target, ← object target, name, arguments with
    | .ref address, .list items, "Add", [v] => do
      modify (·.write address (.list (items ++ [v])))
      return .null
    | target, .instanceOf className _, name, arguments =>
      match (prog.registry.get? className).bind (method? · name) with
      | some m => invoke target m arguments
      | none => throw .illFormed
    | _, _, _, _ => throw .illFormed

/-- A new container, or a new object of a class. -/
def construct (prog : Program) : TypeRef → List Value → Run Value
  | .generic "List" _, [] => allocate (.list [])
  | .generic "List" _, [collection] => do allocate (.list (← elements collection))
  | .generic "Dictionary" _, [] => allocate (.dictionary [])
  | .named name, [other] =>
    match prog.registry.get? name with
    | some c => do
      let new ← allocate (.instanceOf name (c.properties.map fun p => (p.name, defaultValue p.shape)))
      let _ ← invoke new (constructorMethod (copyConstructor c)) [other]
      return new
    | none => throw .illFormed
  | _, _ => throw .illFormed

/-- The visit of a node or `null`. The class of a node decides about the method, and what it returns
is replaced. -/
def visitNode (prog : Program) (this node : Value) : Run Value := do
  match node with
  | .null => return .null
  | node =>
    match (← get).heap.class? prog.registry node with
    | some c => do
      let visited ← invoke this (visitClassMethod c) [node]
      let replacement := prog.substitute c.name (← get).heap visited
      modify (·.grow replacement.1)
      return replacement.2
    | none => throw .illFormed

/-- `a == b`. A class of one of the operands decides. -/
def equalOperator (prog : Program) (a b : Value) : Run Value := do
  match ((← get).heap.class? prog.registry a).or ((← get).heap.class? prog.registry b) with
  | some c => invoke .null (operatorEqual c) [a, b]
  | none => return .bool (← sameValue prog.leafEqual a b)

/-- `a != b`. -/
def notEqualOperator (prog : Program) (a b : Value) : Run Value := do
  match ((← get).heap.class? prog.registry a).or ((← get).heap.class? prog.registry b) with
  | some c => invoke .null (operatorNotEqual c) [a, b]
  | none => return .bool !(← sameValue prog.leafEqual a b)

/-- Whether two values are equal as objects. If they are not the same and neither is `null`, the
first one decides by its own `Equals`. -/
def objectsEqual (prog : Program) (a b : Value) : Run Value := do
  match (← get).heap.class? prog.registry a with
  | some c => do
    match b with
    | .null => return .bool false
    | b =>
      if ← sameReference a b then return .bool true
      else invoke a (equalsObject c) [b]
  | none => return .bool (← sameValue prog.leafEqual a b)

/-- The order of two texts. `null` comes first. -/
def compareTexts (order : LeafOrder) : Value → Value → Run Value
  | .null, .null => return .int 0
  | .null, .leaf (.text _) => return .int (-1)
  | .leaf (.text _), .null => return .int 1
  | .leaf (.text a), .leaf (.text b) => return .int (order.texts a b)
  | _, _ => throw .illFormed

/-- The order of two objects. `null` comes first, and two objects are compared by the first one. -/
def compareObjects (prog : Program) : Value → Value → Run Value
  | .null, .null => return .int 0
  | .null, _ => return .int (-1)
  | _, .null => return .int 1
  | a, b => callMethod prog a "CompareTo" [b]

/-- The text that a value is. -/
def Value.text? : Value → Option String
  | .leaf (.text s) => some s
  | _ => none

/-- Sorts a list of texts in its place. -/
def sortTexts (order : LeafOrder) (v : Value) : Run Value := do
  match v, ← object v with
  | .ref address, .list items =>
    match items.mapM Value.text? with
    | some texts => do
      let sorted := texts.mergeSort fun a b => decide (order.texts a b ≤ 0)
      modify (·.write address (.list (sorted.map fun text => .leaf (.text text))))
      return .null
    | none => throw .illFormed
  | _, _ => throw .illFormed

/-- The result of a call. -/
def call (prog : Program) (this : Value) : Call → Run Value
  | .referenceEquals a b => do
    return .bool (← sameReference (← evaluate this a) (← evaluate this b))
  | .objectEquals a b => do objectsEqual prog (← evaluate this a) (← evaluate this b)
  | .textEquals a b => do
    return .bool (← sameValue prog.leafEqual (← evaluate this a) (← evaluate this b))
  | .textCompare a b => do compareTexts prog.leafOrder (← evaluate this a) (← evaluate this b)
  | .defaultCompare a b => do compareObjects prog (← evaluate this a) (← evaluate this b)
  | .sortTexts keys => do sortTexts prog.leafOrder (← evaluate this keys)
  | .tryGetValue map key found => do
    let v ← lookUp (← evaluate this map) (← evaluate this key)
    modify (·.push [(found, v.getD .null)])
    return .bool v.isSome
  | .visitNullChecked node => do visitNode prog this (← evaluate this node)
  | .own name arguments => do callMethod prog this name (← evaluateAll this arguments)
  | .method target name arguments => do
    callMethod prog (← evaluate this target) name (← evaluateAll this arguments)
  | .unknown => throw .illFormed

/-! ## Engines -/

/-- `evaluate`, one level down. -/
def evaluateStep (prog : Program) (this : Value) : Expr → Run Value
  | .ident name => readName this name
  | .this => return this
  | .null => return .null
  | .bool b => return .bool b
  | .int n => return .int n
  | .member target name => do readMember (← evaluate this target) name
  | .index target position => do
    readIndex (← evaluate this target) (← evaluate this position)
  | .asType operand type => do convert type (← evaluate this operand)
  | .not operand => do return .bool !(← truth (← evaluate this operand))
  | .conditional condition yes no => do
    if ← truth (← evaluate this condition) then evaluate this yes else evaluate this no
  | .binary left .or right => do
    if ← truth (← evaluate this left) then return .bool true else evaluate this right
  | .binary left .equal right => do
    equalOperator prog (← evaluate this left) (← evaluate this right)
  | .binary left .notEqual right => do
    notEqualOperator prog (← evaluate this left) (← evaluate this right)
  | .binary left .add right => do
    arithmetic (· + ·) (← evaluate this left) (← evaluate this right)
  | .binary left .multiply right => do
    arithmetic (· * ·) (← evaluate this left) (← evaluate this right)
  | .call callee arguments => call prog this (Call.of callee arguments)
  | .new type arguments => do construct prog type (← evaluateAll this arguments)
  | .type _ | .cast .. | .outVar _ => throw .illFormed

/-- `execute`, one level down. -/
def executeStep (this : Value) : Stmt → Run Flow
  | .expr e => do
    let _ ← evaluate this e
    return .next
  | .assign (.ident name) e => do
    writeName this name (← evaluate this e)
    return .next
  | .assign (.member target name) e => do
    writeMember (← evaluate this target) name (← evaluate this e)
    return .next
  | .assign (.index target position) e => do
    writeIndex (← evaluate this target) (← evaluate this position) (← evaluate this e)
    return .next
  | .declare name _ init => do
    let v ← evaluate this init
    modify (·.push [(name, v)])
    return .next
  | .ret e => return .returned (← evaluate this e)
  | .ifElse condition yes no => do
    if ← truth (← evaluate this condition) then block this [] yes else block this [] no
  | .forBelow index bound body => below this index bound body 0
  | .forEach item _ items body => do
    let collection ← evaluate this items
    each this item body collection (← writes collection) (← elements collection)
  | .raise _ => throw .raised
  | .unchecked body => block this [] body
  | .assign .. | .switch .. => throw .illFormed

/-- `below`, one level down. -/
def belowStep (this : Value) (index : String) (bound : Expr) (body : List Stmt) (i : Nat) :
    Run Flow := do
  match ← evaluate this bound with
  | .int n =>
    if i < n then
      match ← block this [(index, .int i)] body with
      | .next => below this index bound body (i + 1)
      | .returned v => return .returned v
    else return .next
  | _ => throw .illFormed

/-- The engine that goes one level deeper. -/
def Engine.deeper (prog : Program) (engine : Engine) : Engine where
  evaluate this e := evaluateStep prog this e engine
  execute this stmt := executeStep this stmt engine
  below this index bound body i := belowStep this index bound body i engine

/-- The engine that gives up below a depth. -/
def engine (prog : Program) : Nat → Engine
  | 0 => {
    evaluate _ _ := throw .tooDeep
    execute _ _ := throw .tooDeep
    below _ _ _ _ _ := throw .tooDeep }
  | depth + 1 => (engine prog depth).deeper prog

end Classwright.Machine
