import Classwright.Proofs.Json.Induction
import Classwright.Proofs.Machine.Basic

/-!
# Rules of the machine

What the forms of generated code do, one rule for each form: from what the parts of an expression or
a statement yield to what it yields itself. The definitions of the machine are unfolded here and
nowhere else.

* **`Yields`** is a run that ends with a result, and with no other one (`Yields.unique`), and that
  meets no fault on the way. Only `evaluate`, `execute` and `below` depend on the depth of the
  engine.
* **`Evaluates`** is an expression that leaves the state alone, and **`Reads`** is one that does so
  whatever locals of given names are declared besides.
* **`Executes`** is a list of statements.
* **`goOnIf`** is how statements end that leave with `false` where a test fails. The two loops
  (`below_goOnIf`, `each_goOnIf`) run such tests one after another.
-/

namespace Classwright.Machine

open Code Emit

/-! ## Runs that end -/

section

variable {prog : Program} {α β : Type} {s t u : State}

/-- **A run from a state to a result and another state.** The run has a depth: the engines that go as
deep end with the result, and all others give up. So no engine meets a fault of the code. -/
def Yields (prog : Program) (x : Run α) (s : State) (v : α) (t : State) : Prop :=
  ∃ depth, ∀ d, x (engine prog d) s = if depth ≤ d then .ok (v, t) else .error .tooDeep

theorem Yields.unique {x : Run α} {v w : α} (h : Yields prog x s v t) (h' : Yields prog x s w u) :
    v = w ∧ t = u := by
  obtain ⟨m, hm⟩ := h
  obtain ⟨n, hn⟩ := h'
  have heq := (hm (max m n)).symm.trans (hn (max m n))
  rw [if_pos (Nat.le_max_left m n), if_pos (Nat.le_max_right m n)] at heq
  cases heq
  exact ⟨rfl, rfl⟩

/-- An engine that ends with a result goes deep enough. -/
theorem Yields.eq_of_engine {x : Run α} {v w : α} {d : Nat} (h : Yields prog x s v t)
    (hd : x (engine prog d) s = .ok (w, u)) : v = w ∧ t = u := by
  obtain ⟨m, hm⟩ := h
  rw [hm d] at hd
  split at hd
  · cases hd
    exact ⟨rfl, rfl⟩
  · cases hd

/-- No run ends that meets a fault. -/
theorem Yields.false_of_engine {x : Run α} {v : α} {d : Nat} {fault : Fault}
    (h : Yields prog x s v t) (hd : x (engine prog d) s = .error fault) (hf : fault ≠ .tooDeep) :
    False := by
  obtain ⟨m, hm⟩ := h
  rw [hm d] at hd
  split at hd
  · cases hd
  · exact hf (Except.error.inj hd).symm

theorem Yields.result (v : α) (s : State) : Yields prog (pure v) s v s := ⟨0, fun _ => rfl⟩

theorem Yields.state (s : State) : Yields prog get s s s := ⟨0, fun _ => rfl⟩

theorem Yields.update (f : State → State) (s : State) : Yields prog (modify f) s () (f s) :=
  ⟨0, fun _ => rfl⟩

theorem Yields.bind {x : Run α} {f : α → Run β} {v : α} {w : β} (hx : Yields prog x s v t)
    (hf : Yields prog (f v) t w u) : Yields prog (x >>= f) s w u := by
  obtain ⟨m, hm⟩ := hx
  obtain ⟨n, hn⟩ := hf
  refine ⟨max m n, fun d => ?_⟩
  show StateT.bind (x (engine prog d)) (fun a => f a (engine prog d)) s = _
  unfold StateT.bind
  rw [hm d]
  by_cases hmd : m ≤ d
  · rw [if_pos hmd]
    show f v (engine prog d) t = _
    rw [hn d]
    by_cases hnd : n ≤ d
    · rw [if_pos hnd, if_pos (Nat.max_le.2 ⟨hmd, hnd⟩)]
    · rw [if_neg hnd, if_neg fun h => hnd (Nat.max_le.1 h).2]
  · rw [if_neg hmd, if_neg fun h => hmd (Nat.max_le.1 h).1]
    rfl

/-- A run one level above another one. -/
theorem Yields.deeper {x y : Run α} {v : α} (h : Yields prog x s v t)
    (hzero : y (engine prog 0) s = .error .tooDeep)
    (hsucc : ∀ d, y (engine prog (d + 1)) s = x (engine prog d) s) : Yields prog y s v t := by
  obtain ⟨n, hn⟩ := h
  refine ⟨n + 1, fun d => ?_⟩
  cases d with
  | zero => exact hzero
  | succ d => simp only [hsucc, hn, Nat.add_le_add_iff_right]

variable {this : Value}

theorem yields_evaluate {e : Expr} {v : Value} (h : Yields prog (evaluateStep prog this e) s v t) :
    Yields prog (evaluate this e) s v t :=
  h.deeper rfl fun _ => rfl

theorem yields_execute {stmt : Stmt} {flow : Flow} (h : Yields prog (executeStep this stmt) s flow t) :
    Yields prog (execute this stmt) s flow t :=
  h.deeper rfl fun _ => rfl

theorem yields_below {index : String} {bound : Expr} {body : List Stmt} {i : Nat} {flow : Flow}
    (h : Yields prog (belowStep this index bound body i) s flow t) :
    Yields prog (below this index bound body i) s flow t :=
  h.deeper rfl fun _ => rfl

end

/-! ## Locals -/

namespace State

theorem push_push (s : State) (xs ys : Fields Value) : (s.push xs).push ys = s.push (ys ++ xs) := by
  simp [push]

/-- Leaving forgets what was declared. -/
theorem leave_push (s : State) (xs : Fields Value) : (s.push xs).leave s.locals.length = s := by
  simp [push, leave]

theorem get?_push_of_not_mem (s : State) {xs : Fields Value} {name : String}
    (h : name ∉ xs.keys) : Fields.get? (s.push xs).locals name = Fields.get? s.locals name := by
  induction xs with
  | nil => rfl
  | cons field xs ih =>
    rw [Fields.keys_cons, List.mem_cons, not_or] at h
    rw [show (s.push (field :: xs)).locals = field :: (s.push xs).locals from rfl,
      Fields.get?_cons, if_neg h.1, ih h.2]

end State

/-! ## Values -/

theorem Heap.class?_of_object? {r : Registry} {heap : Heap} {address : Nat} {name : String}
    {properties : Fields Value} (h : heap.object? address = some (.instanceOf name properties)) :
    heap.class? r (.ref address) = r.get? name := by
  rw [class?, h]

theorem Heap.exists_of_class? {r : Registry} {heap : Heap} {address : Nat} {c : ClassModel}
    (h : heap.class? r (.ref address) = some c) :
    ∃ name properties, heap.object? address = some (.instanceOf name properties) ∧
      r.get? name = some c := by
  rw [class?] at h
  split at h
  · next name properties ho => exact ⟨name, properties, ho, h⟩
  · cases h

section

variable {prog : Program} {s : State}

theorem yields_truth (b : Bool) : Yields prog (truth (.bool b)) s b s := Yields.result b s

theorem yields_object {address : Nat} {o : Object} (h : s.heap.object? address = some o) :
    Yields prog (object (.ref address)) s o s := by
  refine Yields.bind (Yields.state s) ?_
  rw [h]
  exact Yields.result o s

theorem yields_property {address : Nat} {className name : String} {properties : Fields Value}
    {v : Value} (h : s.heap.object? address = some (.instanceOf className properties))
    (hv : properties.get? name = some v) : Yields prog (readMember (.ref address) name) s v s := by
  refine Yields.bind (yields_object h) ?_
  simp only [hv]
  exact Yields.result v s

theorem yields_count_list {address : Nat} {items : List Value}
    (h : s.heap.object? address = some (.list items)) :
    Yields prog (readMember (.ref address) "Count") s (.int items.length) s :=
  Yields.bind (yields_object h) (Yields.result _ s)

theorem yields_count_dictionary {address : Nat} {entries : Fields Value}
    (h : s.heap.object? address = some (.dictionary entries)) :
    Yields prog (readMember (.ref address) "Count") s (.int entries.length) s :=
  Yields.bind (yields_object h) (Yields.result _ s)

theorem yields_item {address : Nat} {items : List Value} {i : Nat} {v : Value}
    (h : s.heap.object? address = some (.list items)) (hv : items[i]? = some v) :
    Yields prog (readIndex (.ref address) (.int i)) s v s := by
  refine Yields.bind (yields_object h) ?_
  simp only [if_neg (Int.not_lt.2 (Int.natCast_nonneg i)), Int.toNat_natCast, hv]
  exact Yields.result v s

theorem yields_lookUp {address : Nat} {entries : Fields Value}
    (h : s.heap.object? address = some (.dictionary entries)) (key : String) :
    Yields prog (lookUp (.ref address) (.leaf (.text key))) s (entries.get? key) s :=
  Yields.bind (yields_object h) (Yields.result _ s)

theorem yields_writes (address : Nat) :
    ∃ n, Yields prog (writes (.ref address)) s n s :=
  ⟨_, Yields.bind (Yields.state s) (Yields.result _ s)⟩

theorem yields_elements {address : Nat} {entries : Fields Value}
    (h : s.heap.object? address = some (.dictionary entries)) :
    Yields prog (elements (.ref address)) s (entries.map fun f => .entry f.1 f.2) s :=
  Yields.bind (yields_object h) (Yields.result _ s)

/-- Whether a value is `null` or leads to the heap. -/
def Value.isReference : Value → Bool
  | .null | .ref _ => true
  | _ => false

theorem yields_sameReference_self {v : Value} (hv : v.isReference = true) :
    Yields prog (sameReference v v) s true s := by
  cases v with
  | null => exact Yields.result true s
  | ref a =>
    rw [show sameReference (.ref a) (.ref a) = pure (a == a) from rfl, beq_self_eq_true]
    exact Yields.result true s
  | _ => cases hv

theorem yields_sameReference_of_ne {v w : Value} (hv : v.isReference = true)
    (hw : w.isReference = true) (h : v ≠ w) : Yields prog (sameReference v w) s false s := by
  cases v with
  | null =>
    cases w with
    | null => exact absurd rfl h
    | ref b => exact Yields.result false s
    | _ => cases hw
  | ref a =>
    cases w with
    | null => exact Yields.result false s
    | ref b =>
      have hne : (a == b) = false := beq_false_of_ne fun e => h (e ▸ rfl)
      rw [show sameReference (.ref a) (.ref b) = pure (a == b) from rfl, hne]
      exact Yields.result false s
    | _ => cases hw
  | _ => cases hv

theorem yields_sameValue_count (m n : Nat) :
    Yields prog (sameValue prog.leafEqual (.int m) (.int n)) s (m == n) s := by
  have hcast : ((m : Int) == n) = (m == n) := by
    rw [Bool.eq_iff_iff, beq_iff_eq, beq_iff_eq, Int.natCast_inj]
  rw [show sameValue prog.leafEqual (.int m) (.int n) = pure ((m : Int) == n) from rfl, hcast]
  exact Yields.result _ s

theorem yields_convert {address : Nat} {className : String} {properties : Fields Value}
    (h : s.heap.object? address = some (.instanceOf className properties)) :
    Yields prog (convert (.named className) (.ref address)) s (.ref address) s := by
  refine Yields.bind (Yields.state s) ?_
  rw [h]
  show Yields prog (pure (if className = className then Value.ref address else .null)) s _ s
  rw [if_pos rfl]
  exact Yields.result _ s

end

/-- Operands of no class are compared as values. -/
theorem yields_equalOperator_values {prog : Program} {s : State} {a b : Value} {e : Bool}
    (hca : s.heap.class? prog.registry a = none) (hcb : s.heap.class? prog.registry b = none)
    (he : Yields prog (sameValue prog.leafEqual a b) s e s) :
    Yields prog (equalOperator prog a b) s (.bool e) s := by
  refine Yields.bind (Yields.state s) (Yields.bind (Yields.state s) ?_)
  rw [hca, hcb]
  exact Yields.bind he (Yields.result _ s)

/-! ## Expressions -/

/-- An expression has a value and changes nothing. -/
def Evaluates (prog : Program) (this : Value) (s : State) (e : Expr) (v : Value) : Prop :=
  Yields prog (evaluate this e) s v s

namespace Evaluates

variable {prog : Program} {this : Value} {s : State}

theorem localOf {name : String} {v : Value} (h : Fields.get? s.locals name = some v) :
    Evaluates prog this s (.ident name) v := by
  refine yields_evaluate ?_
  refine Yields.bind (Yields.state s) ?_
  rw [h]
  exact Yields.result v s

theorem property {name : String} {v : Value} (h : Fields.get? s.locals name = none)
    (hv : Yields prog (readMember this name) s v s) : Evaluates prog this s (.ident name) v := by
  refine yields_evaluate ?_
  refine Yields.bind (Yields.state s) ?_
  rw [h]
  exact hv

theorem self : Evaluates prog this s .this this := by
  refine yields_evaluate ?_
  exact Yields.result this s

theorem null : Evaluates prog this s .null .null := by
  refine yields_evaluate ?_
  exact Yields.result Value.null s

theorem bool (b : Bool) : Evaluates prog this s (.bool b) (.bool b) := by
  refine yields_evaluate ?_
  exact Yields.result _ s

theorem member {target : Expr} {name : String} {o v : Value} (ho : Evaluates prog this s target o)
    (hv : Yields prog (readMember o name) s v s) : Evaluates prog this s (.member target name) v := by
  refine yields_evaluate ?_
  exact Yields.bind ho hv

theorem index {target position : Expr} {o i v : Value} (ho : Evaluates prog this s target o)
    (hi : Evaluates prog this s position i) (hv : Yields prog (readIndex o i) s v s) :
    Evaluates prog this s (.index target position) v := by
  refine yields_evaluate ?_
  exact Yields.bind ho (Yields.bind hi hv)

theorem asType {operand : Expr} {type : TypeRef} {o v : Value} (ho : Evaluates prog this s operand o)
    (hv : Yields prog (convert type o) s v s) : Evaluates prog this s (.asType operand type) v := by
  refine yields_evaluate ?_
  exact Yields.bind ho hv

theorem not {operand : Expr} {b : Bool} (h : Evaluates prog this s operand (.bool b)) :
    Evaluates prog this s (.not operand) (.bool !b) := by
  refine yields_evaluate ?_
  exact Yields.bind h (Yields.bind (yields_truth b) (Yields.result _ s))

/-- The second operand counts only if the first one is false. -/
theorem orElse {left right : Expr} {a b : Bool} (ha : Evaluates prog this s left (.bool a))
    (hb : a = false → Evaluates prog this s right (.bool b)) :
    Evaluates prog this s (left.orElse right) (.bool (a || b)) := by
  refine yields_evaluate ?_
  refine Yields.bind ha (Yields.bind (yields_truth a) ?_)
  cases a with
  | true => exact Yields.result _ s
  | false => exact hb rfl

theorem conditional {condition yes no : Expr} {b : Bool} {v : Value}
    (hc : Evaluates prog this s condition (.bool b))
    (hv : Evaluates prog this s (if b then yes else no) v) :
    Evaluates prog this s (.conditional condition yes no) v := by
  refine yields_evaluate ?_
  refine Yields.bind hc (Yields.bind (yields_truth b) ?_)
  cases b with
  | true => exact hv
  | false => exact hv

theorem equalOperator {left right : Expr} {a b v : Value} (ha : Evaluates prog this s left a)
    (hb : Evaluates prog this s right b) (hv : Yields prog (equalOperator prog a b) s v s) :
    Evaluates prog this s (left.equalTo right) v := by
  refine yields_evaluate ?_
  exact Yields.bind ha (Yields.bind hb hv)

theorem equalTo {left right : Expr} {a b : Value} {e : Bool} (ha : Evaluates prog this s left a)
    (hb : Evaluates prog this s right b) (hca : s.heap.class? prog.registry a = none)
    (hcb : s.heap.class? prog.registry b = none)
    (he : Yields prog (sameValue prog.leafEqual a b) s e s) :
    Evaluates prog this s (left.equalTo right) (.bool e) :=
  .equalOperator ha hb (yields_equalOperator_values hca hcb he)

theorem notEqualTo {left right : Expr} {a b : Value} {e : Bool} (ha : Evaluates prog this s left a)
    (hb : Evaluates prog this s right b) (hca : s.heap.class? prog.registry a = none)
    (hcb : s.heap.class? prog.registry b = none)
    (he : Yields prog (sameValue prog.leafEqual a b) s e s) :
    Evaluates prog this s (left.notEqualTo right) (.bool !e) := by
  refine yields_evaluate ?_
  refine Yields.bind ha (Yields.bind hb ?_)
  refine Yields.bind (Yields.state s) (Yields.bind (Yields.state s) ?_)
  rw [hca, hcb]
  exact Yields.bind he (Yields.result _ s)

theorem referenceEquals {left right : Expr} {a b : Value} {e : Bool}
    (ha : Evaluates prog this s left a) (hb : Evaluates prog this s right b)
    (he : Yields prog (sameReference a b) s e s) :
    Evaluates prog this s (referenceEquals left right) (.bool e) := by
  refine yields_evaluate ?_
  show Yields prog (call prog this (.referenceEquals left right)) s _ s
  exact Yields.bind ha (Yields.bind hb (Yields.bind he (Yields.result _ s)))

theorem objectEquals {left right : Expr} {a b v : Value} (ha : Evaluates prog this s left a)
    (hb : Evaluates prog this s right b) (hv : Yields prog (objectsEqual prog a b) s v s) :
    Evaluates prog this s (objectEquals left right) v := by
  refine yields_evaluate ?_
  show Yields prog (call prog this (.objectEquals left right)) s v s
  exact Yields.bind ha (Yields.bind hb hv)

theorem textEquals {left right : Expr} {a b : Value} {e : Bool} (ha : Evaluates prog this s left a)
    (hb : Evaluates prog this s right b) (he : Yields prog (sameValue prog.leafEqual a b) s e s) :
    Evaluates prog this s (.call (.member (.ident "string") "Equals")
      [left, right, .member (.ident "StringComparison") "Ordinal"]) (.bool e) := by
  refine yields_evaluate ?_
  show Yields prog (call prog this (.textEquals left right)) s _ s
  exact Yields.bind ha (Yields.bind hb (Yields.bind he (Yields.result _ s)))

end Evaluates

section

variable {prog : Program} {this : Value} {s : State}

/-- A lookup declares a local for what it finds. -/
theorem yields_tryGetValue {map key : Expr} {m k : Value} {v : Option Value} (found : String)
    (hm : Evaluates prog this s map m) (hk : Evaluates prog this s key k)
    (hv : Yields prog (lookUp m k) s v s) :
    Yields prog (evaluate this (.call (.member map "TryGetValue") [key, .outVar found])) s
      (.bool v.isSome) (s.push [(found, v.getD .null)]) := by
  refine yields_evaluate ?_
  show Yields prog (call prog this (.tryGetValue map key found)) s _ _
  exact Yields.bind hm (Yields.bind hk (Yields.bind hv
    (Yields.bind (Yields.update _ s) (Yields.result _ _))))

theorem yields_objectsEqual {a b : Value} {e : Bool} (hc : s.heap.class? prog.registry a = none)
    (he : Yields prog (sameValue prog.leafEqual a b) s e s) :
    Yields prog (objectsEqual prog a b) s (.bool e) s := by
  refine Yields.bind (Yields.state s) ?_
  rw [hc]
  exact Yields.bind he (Yields.result _ s)

theorem yields_objectsEqual_null {a : Value} {c : ClassModel} (hc : s.heap.class? prog.registry a = some c) :
    Yields prog (objectsEqual prog a .null) s (.bool false) s := by
  refine Yields.bind (Yields.state s) ?_
  rw [hc]
  exact Yields.result _ s

/-- An object decides itself about other objects. -/
theorem yields_objectsEqual_ref {a : Value} {address : Nat} {c : ClassModel} {same e : Bool}
    (hc : s.heap.class? prog.registry a = some c) (hs : Yields prog (sameReference a (.ref address)) s same s)
    (ht : same = true → e = true)
    (hf : same = false → Yields prog (invoke a (equalsObject c) [.ref address]) s (.bool e) s) :
    Yields prog (objectsEqual prog a (.ref address)) s (.bool e) s := by
  refine Yields.bind (Yields.state s) ?_
  rw [hc]
  refine Yields.bind hs ?_
  cases same with
  | true =>
    rw [ht rfl]
    exact Yields.result _ s
  | false => exact hf rfl

theorem yields_equalOperator {a b v : Value} {c : ClassModel}
    (hc : (s.heap.class? prog.registry a).or (s.heap.class? prog.registry b) = some c)
    (h : Yields prog (invoke .null (operatorEqual c) [a, b]) s v s) :
    Yields prog (equalOperator prog a b) s v s := by
  refine Yields.bind (Yields.state s) (Yields.bind (Yields.state s) ?_)
  rw [hc]
  exact h

theorem yields_not {operand : Expr} {b : Bool} {t : State}
    (h : Yields prog (evaluate this operand) s (.bool b) t) :
    Yields prog (evaluate this (.not operand)) s (.bool !b) t := by
  refine yields_evaluate ?_
  exact Yields.bind h (Yields.bind (yields_truth b) (Yields.result _ t))

theorem yields_callMethod {address : Nat} {o : Object} {name : String} {arguments : List Value}
    {c : ClassModel} {m : MethodDecl} {v : Value} {t : State} (ho : s.heap.object? address = some o)
    (hc : s.heap.class? prog.registry (.ref address) = some c) (hm : method? c name = some m)
    (hv : Yields prog (invoke (.ref address) m arguments) s v t) :
    Yields prog (callMethod prog (.ref address) name arguments) s v t := by
  obtain ⟨className, properties, ho', hget⟩ := Heap.exists_of_class? hc
  cases ho.symm.trans ho'
  refine Yields.bind (yields_object ho) ?_
  simp only [hget, Option.bind_some, hm]
  exact hv

/-- A call of `Equals` on `this`. -/
theorem yields_ownEquals {e : Expr} {v w : Value} (he : Evaluates prog this s e v)
    (h : Yields prog (callMethod prog this "Equals" [v]) s w s) :
    Evaluates prog this s (.call (.ident "Equals") [e]) w := by
  refine yields_evaluate ?_
  show Yields prog (call prog this (.own "Equals" [e])) s w s
  exact Yields.bind (Yields.bind he (Yields.bind (Yields.result [] s) (Yields.result [v] s))) h

/-- A call of `Equals` on the object of a name. -/
theorem yields_equalsOf {name : String} {e : Expr} {o v w : Value}
    (ho : Evaluates prog this s (.ident name) o) (he : Evaluates prog this s e v)
    (h : Yields prog (callMethod prog o "Equals" [v]) s w s) :
    Evaluates prog this s (.call (.member (.ident name) "Equals") [e]) w := by
  refine yields_evaluate ?_
  show Yields prog (call prog this (Call.of (.member (.ident name) "Equals") [e])) s w s
  rw [show Call.of (.member (.ident name) "Equals") [e] = .method (.ident name) "Equals" [e]
    by simp [Call.of]]
  exact Yields.bind ho (Yields.bind
    (Yields.bind he (Yields.bind (Yields.result [] s) (Yields.result [v] s))) h)

end

/-! ## Statements -/

/-- Statements end in a way and in a state. -/
def Executes (prog : Program) (this : Value) (s : State) (body : List Stmt) (flow : Flow) (t : State) :
    Prop :=
  Yields prog (executeAll this body) s flow t

/-- Goes on if a test succeeds, and leaves with `false` if it fails. -/
def goOnIf (e : Bool) : Flow := if e then .next else .returned (.bool false)

section

variable {prog : Program} {this : Value} {s t u : State}

theorem Executes.nil : Executes prog this s [] .next s := by
  exact Yields.result _ s

theorem Executes.next {stmt : Stmt} {rest : List Stmt} {flow : Flow}
    (h : Yields prog (execute this stmt) s .next t) (hr : Executes prog this t rest flow u) :
    Executes prog this s (stmt :: rest) flow u := by
  exact Yields.bind h hr

theorem Executes.returned {stmt : Stmt} {v : Value}
    (h : Yields prog (execute this stmt) s (.returned v) t) (rest : List Stmt) :
    Executes prog this s (stmt :: rest) (.returned v) t := by
  exact Yields.bind h (Yields.result _ t)

theorem Executes.single {stmt : Stmt} {flow : Flow} (h : Yields prog (execute this stmt) s flow t) :
    Executes prog this s [stmt] flow t := by
  cases flow with
  | next => exact .next h .nil
  | returned v => exact .returned h []

theorem executeAll_append (xs ys : List Stmt) :
    executeAll this (xs ++ ys) = executeAll this xs >>= fun
      | .next => executeAll this ys
      | .returned v => return .returned v := by
  induction xs with
  | nil =>
    rw [executeAll, pure_bind]
    rfl
  | cons stmt xs ih =>
    rw [List.cons_append, executeAll, executeAll, bind_assoc]
    refine bind_congr fun flow => ?_
    cases flow with
    | next => exact ih
    | returned v => rw [pure_bind]

theorem Executes.append {xs ys : List Stmt} {flow : Flow} (h : Executes prog this s xs .next t)
    (hr : Executes prog this t ys flow u) : Executes prog this s (xs ++ ys) flow u := by
  unfold Executes
  rw [executeAll_append]
  exact Yields.bind h hr

theorem Executes.append_returned {xs : List Stmt} {v : Value}
    (h : Executes prog this s xs (.returned v) t) (ys : List Stmt) :
    Executes prog this s (xs ++ ys) (.returned v) t := by
  unfold Executes
  rw [executeAll_append]
  exact Yields.bind h (Yields.result _ t)

/-- Lists of tests one after another. -/
theorem Executes.flatMap_goOnIf {α : Type} {l : List α} {stmts : α → List Stmt} {test : α → Bool}
    (h : ∀ x ∈ l, Executes prog this s (stmts x) (goOnIf (test x)) s) :
    Executes prog this s (l.flatMap stmts) (goOnIf (l.all test)) s := by
  induction l with
  | nil => exact .nil
  | cons x l ih =>
    have hx := h x List.mem_cons_self
    rw [List.flatMap_cons, List.all_cons]
    cases hb : test x with
    | true =>
      rw [hb] at hx
      exact .append hx (ih fun y hy => h y (List.mem_cons_of_mem _ hy))
    | false =>
      rw [hb] at hx
      exact .append_returned hx _

theorem yields_declare {name : String} {type : Option TypeRef} {init : Expr} {v : Value}
    (h : Yields prog (evaluate this init) s v t) :
    Yields prog (execute this (.declare name type init)) s .next (t.push [(name, v)]) := by
  refine yields_execute ?_
  exact Yields.bind h (Yields.bind (Yields.update _ t) (Yields.result _ _))

theorem yields_ret {e : Expr} {v : Value} (h : Evaluates prog this s e v) :
    Yields prog (execute this (.ret e)) s (.returned v) s := by
  refine yields_execute ?_
  exact Yields.bind h (Yields.result _ s)

/-- A block that only declares leaves the state as it was. -/
theorem yields_block {locals ext : Fields Value} {body : List Stmt} {flow : Flow}
    (h : Executes prog this (s.push locals) body flow (s.push ext)) :
    Yields prog (block this locals body) s flow s := by
  refine Yields.bind (Yields.state s) (Yields.bind (Yields.update _ s) (Yields.bind h ?_))
  refine Yields.bind (Yields.update _ _) ?_
  rw [State.leave_push]
  exact Yields.result flow s

theorem yields_ifThen {condition : Expr} {yes : List Stmt} {b : Bool} {flow : Flow}
    (hc : Yields prog (evaluate this condition) s (.bool b) t)
    (hy : b = true → ∃ ext, Executes prog this t yes flow (t.push ext))
    (hn : b = false → flow = .next) :
    Yields prog (execute this (.ifThen condition yes)) s flow t := by
  unfold Stmt.ifThen
  refine yields_execute ?_
  refine Yields.bind hc (Yields.bind (yields_truth b) ?_)
  cases b with
  | true =>
    obtain ⟨ext, h⟩ := hy rfl
    exact yields_block h
  | false =>
    cases hn rfl
    -- the branch that is not there is an empty block
    have h : Executes prog this (t.push []) [] .next (t.push []) := Executes.nil
    exact yields_block h

theorem yields_leaveIf {condition : Expr} {b : Bool}
    (hc : Yields prog (evaluate this condition) s (.bool b) t) :
    Yields prog (execute this (leaveIf condition)) s (goOnIf !b) t := by
  refine yields_ifThen hc (fun hb => ⟨[], ?_⟩) (fun hb => ?_)
  · rw [hb]
    exact .single (yields_ret (.bool false))
  · rw [hb]
    rfl

/-! ## Loops -/

theorem yields_forBelow {index : String} {bound : Expr} {body : List Stmt} {flow : Flow}
    (h : Yields prog (below this index bound body 0) s flow s) :
    Yields prog (execute this (.forBelow index bound body)) s flow s := by
  refine yields_execute ?_
  exact h

/-- **A loop over numbers tests one after another.** -/
theorem below_goOnIf {index : String} {bound : Expr} {body : List Stmt} {total i : Nat}
    {tests : List Bool} (hbound : Evaluates prog this s bound (.int total))
    (hlen : i + tests.length = total)
    (hstep : ∀ j e, tests[j]? = some e →
      Yields prog (block this [(index, .int ↑(i + j))] body) s (goOnIf e) s) :
    Yields prog (below this index bound body i) s (goOnIf (tests.all id)) s := by
  induction tests generalizing i with
  | nil =>
    refine yields_below ?_
    refine Yields.bind hbound ?_
    have hend : ¬ (i : Int) < total := by
      rw [List.length_nil] at hlen
      omega
    simp only [if_neg hend]
    exact Yields.result _ s
  | cons e tests ih =>
    -- every turn evaluates the bound again
    refine yields_below ?_
    refine Yields.bind hbound ?_
    have hlt : (i : Int) < total := by
      rw [List.length_cons] at hlen
      omega
    simp only [if_pos hlt]
    refine Yields.bind (hstep 0 e rfl) ?_
    cases e with
    | false => exact Yields.result _ s
    | true =>
      refine ih ?_ fun j e he => ?_
      · rw [List.length_cons] at hlen
        omega
      · rw [Nat.add_right_comm i 1 j]
        exact hstep (j + 1) e he

theorem yields_forEach {item : String} {type : Option TypeRef} {items : Expr} {body : List Stmt}
    {collection : Value} {version : Nat} {values : List Value} {flow : Flow}
    (hc : Evaluates prog this s items collection) (hw : Yields prog (writes collection) s version s)
    (hv : Yields prog (elements collection) s values s)
    (h : Yields prog (each this item body collection version values) s flow s) :
    Yields prog (execute this (.forEach item type items body)) s flow s := by
  refine yields_execute ?_
  exact Yields.bind hc (Yields.bind hw (Yields.bind hv h))

/-- **A loop over a container tests one element after another.** -/
theorem each_goOnIf {item : String} {body : List Stmt} {collection : Value} {version : Nat}
    {tests : List (Value × Bool)} (hw : Yields prog (writes collection) s version s)
    (hstep : ∀ q ∈ tests, Yields prog (block this [(item, q.1)] body) s (goOnIf q.2) s) :
    Yields prog (each this item body collection version (tests.map Prod.fst)) s
      (goOnIf (tests.all Prod.snd)) s := by
  induction tests with
  | nil =>
    refine Yields.bind hw ?_
    rw [if_pos rfl]
    exact Yields.result _ s
  | cons q tests ih =>
    refine Yields.bind hw ?_
    rw [if_pos rfl]
    refine Yields.bind (hstep q List.mem_cons_self) ?_
    obtain ⟨v, e⟩ := q
    cases e with
    | false => exact Yields.result _ s
    | true => exact ih fun q hq => hstep q (List.mem_cons_of_mem _ hq)

/-! ## Methods -/

/-- A method that returns and leaves the heap alone changes nothing for its caller. -/
theorem yields_invoke {m : MethodDecl} {body : List Stmt} {arguments : List Value} {v : Value}
    (hbody : m.body = some body)
    (h : Executes prog this { s with locals := (m.params.map Param.name).zip arguments } body
      (.returned v) t) (ht : t.heap = s.heap) : Yields prog (invoke this m arguments) s v s := by
  rw [invoke, hbody]
  refine Yields.bind (Yields.state s) (Yields.bind (Yields.update _ s) (Yields.bind h ?_))
  refine Yields.bind (Yields.update _ t) ?_
  rw [show { t with locals := s.locals } = s by rw [ht]]
  exact Yields.result v s

end

/-! ## Expressions under more locals -/

/-- An expression has a value, whatever locals of the given names are declared besides. -/
def Reads (prog : Program) (this : Value) (s : State) (names : List String) (e : Expr) (v : Value) :
    Prop :=
  ∀ ext : Fields Value, ext.keys ⊆ names → Evaluates prog this (s.push ext) e v

namespace Reads

variable {prog : Program} {this : Value} {s : State} {names : List String} {e : Expr} {v : Value}

theorem evaluates (h : Reads prog this s names e v) : Evaluates prog this s e v :=
  h [] (List.nil_subset _)

theorem mono {names' : List String} (h : Reads prog this s names e v) (hsub : names' ⊆ names) :
    Reads prog this s names' e v :=
  fun ext hext => h ext (List.Subset.trans hext hsub)

theorem push {xs : Fields Value} (h : Reads prog this s names e v) (hxs : xs.keys ⊆ names) :
    Reads prog this (s.push xs) names e v := by
  intro ext hext
  rw [State.push_push]
  apply h
  rw [Fields.keys, List.map_append]
  exact List.append_subset.2 ⟨hext, hxs⟩

theorem localOf {name : String} (h : Fields.get? s.locals name = some v) (hn : name ∉ names) :
    Reads prog this s names (.ident name) v := by
  intro ext hext
  apply Evaluates.localOf
  rw [State.get?_push_of_not_mem s fun hmem => hn (hext hmem), h]

theorem property {name : String} (h : Fields.get? s.locals name = none) (hn : name ∉ names)
    (hv : ∀ t : State, t.heap = s.heap → Yields prog (readMember this name) t v t) :
    Reads prog this s names (.ident name) v := by
  intro ext hext
  refine Evaluates.property ?_ (hv _ rfl)
  rw [State.get?_push_of_not_mem s fun hmem => hn (hext hmem), h]

theorem member {name : String} {o : Value} (ho : Reads prog this s names e o)
    (hv : ∀ t : State, t.heap = s.heap → Yields prog (readMember o name) t v t) :
    Reads prog this s names (.member e name) v :=
  fun ext hext => .member (ho ext hext) (hv _ rfl)

theorem index {position : Expr} {o i : Value} (ho : Reads prog this s names e o)
    (hi : Reads prog this s names position i)
    (hv : ∀ t : State, t.heap = s.heap → Yields prog (readIndex o i) t v t) :
    Reads prog this s names (.index e position) v :=
  fun ext hext => .index (ho ext hext) (hi ext hext) (hv _ rfl)

end Reads

end Classwright.Machine
