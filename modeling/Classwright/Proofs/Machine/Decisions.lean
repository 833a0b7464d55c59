import Classwright.Proofs.Json.Order
import Classwright.Proofs.Machine.Trees
import Classwright.Proofs.Machine.Updates

/-!
# Runs that decide an order

Code that orders two values goes on as long as it finds no difference and leaves with a number as soon
as it finds one. Only the sign of the number counts. On the way it may make new objects, lists of keys
that it sorts, and it changes nothing else.

* **`LeafOrder.Lawful`** — scalars and counts are ordered as values are.
* **`Compares`** is an expression or a call whose result has the sign of an order.
* **`Orders`** is a run of statements that decides an order in this way. Runs one after another decide
  by the first difference (`Orders.append`, `Orders.flatMap`, `below_orders`).
* **`orders_setAndCheck`** — the one place where a difference leaves a method.
-/

namespace Classwright.Machine

open Code Emit

/-! ## Signs -/

def signOf (n : Int) : Ordering := if n < 0 then .lt else if n = 0 then .eq else .gt

theorem signOf_eq_iff {n : Int} : signOf n = .eq ↔ n = 0 := by
  unfold signOf
  split
  · simp only [reduceCtorEq, false_iff]
    omega
  · split
    · simp_all
    · simp_all

theorem isLE_signOf_iff {n : Int} : (signOf n).isLE = true ↔ n ≤ 0 := by
  unfold signOf
  split
  · simp only [Ordering.isLE_lt, true_iff]
    omega
  · split
    · simp_all
    · simp only [Ordering.isLE_gt, Bool.false_eq_true, false_iff]
      omega

theorem signOf_numberOf (o : Ordering) : signOf (numberOf o) = o := by
  cases o <;> decide

/-- Scalars and counts are ordered as values are. The types that are never `null` have an order of
their own each, so nothing is said about values of different types. -/
structure LeafOrder.Lawful (order : LeafOrder) : Prop where
  texts (a b : String) : signOf (order.texts a b) = (Json.text a).order (.text b)
  values {p : Primitive} (hp : p.isValueType = true) {a b : Json} (ha : p.accepts a = true)
    (hb : p.accepts b = true) : signOf (order.values a b) = a.order b
  counts (m n : Nat) : signOf (order.counts m n) = compare m n

theorem LeafOrder.plain_lawful : LeafOrder.plain.Lawful where
  texts _ _ := signOf_numberOf _
  values _ _ _ _ _ := signOf_numberOf _
  counts m n := by
    show signOf ((m : Int) - n) = compare m n
    unfold signOf
    rw [Nat.compare_eq_ite_lt]
    split
    · rw [if_pos (by omega)]
    · split
      · rw [if_neg (by omega), if_neg (by omega)]
      · rw [if_neg (by omega), if_pos (by omega)]

theorem then_of_ne {o o' : Ordering} (h : o ≠ .eq) : o.then o' = o := by
  cases o with
  | eq => exact absurd rfl h
  | lt => rfl
  | gt => rfl

/-- The first result that is not `.eq`. -/
def firstOf : List Ordering → Ordering
  | [] => .eq
  | o :: rest => o.then (firstOf rest)

/-! ## Runs -/

namespace State

theorem grow_grow (s : State) (xs ys : Heap) : (s.grow xs).grow ys = s.grow (xs ++ ys) := by
  simp only [grow, List.append_assoc]

theorem grow_push (s : State) (xs : Fields Value) (new : Heap) :
    (s.push xs).grow new = (s.grow new).push xs := rfl

/-- The newest object is written to in its place. -/
theorem write_grow_singleton (s : State) (cell : Cell) (o : Object) :
    (s.grow [cell]).write s.heap.length o = s.grow [⟨o, cell.writes + 1⟩] := by
  have hmodify (heap : Heap) (f : Cell → Cell) :
      (heap ++ [cell]).modify heap.length f = heap ++ [f cell] := by
    induction heap with
    | nil => rfl
    | cons c heap ih => simp [ih]
  simp only [write, grow, hmodify]

theorem prefix_grow (s : State) (new : Heap) : s.heap <+: (s.grow new).heap :=
  List.prefix_append _ _

end State

theorem Changed.grow {names : List String} {cells : Nat → Prop} {s t : State}
    (h : Changed names cells s t) (new : Heap) : Changed names cells s (t.grow new) where
  locals := h.locals
  objects address ha hc := by
    rw [← h.objects address ha hc]
    exact List.getElem?_append_left (Nat.lt_of_lt_of_le ha h.grown)
  grown := Nat.le_trans h.grown (t.prefix_grow new).length_le

/-- The result of a run has the sign of an order. The run leaves new objects behind at most. -/
def Compares (prog : Program) (x : Run Value) (s : State) (o : Ordering) : Prop :=
  ∃ n new, Yields prog x s (.int n) (s.grow new) ∧ signOf n = o

/-- **A run that decides an order.** Without a difference it goes on, with new objects and with locals
that it has declared. A difference makes it leave with a number that has its sign. -/
inductive Orders (prog : Program) (x : Run Flow) (s : State) (declared : Fields Value) :
    Ordering → Prop where
  | goesOn (new : Heap) (h : Yields prog x s .next ((s.grow new).push declared)) :
      Orders prog x s declared .eq
  | leaves {o : Ordering} {n : Int} {t : State} (h : Yields prog x s (.returned (.int n)) t)
      (hn : signOf n = o) (ho : o ≠ .eq) (ht : s.heap <+: t.heap) : Orders prog x s declared o

section

variable {prog : Program} {this : Value} {s t : State} {declared : Fields Value} {o o' : Ordering}

theorem Compares.of_unchanged {x : Run Value} {n : Int} (h : Yields prog x s (.int n) s) :
    Compares prog x s (signOf n) := by
  refine ⟨n, [], ?_, rfl⟩
  rw [State.grow_nil]
  exact h

/-- A run that does what another one does. -/
theorem Orders.imp {x y : Run Flow}
    (h : ∀ flow t, Yields prog x s flow t → Yields prog y s flow t)
    (hx : Orders prog x s declared o) : Orders prog y s declared o := by
  cases hx with
  | goesOn new hx => exact .goesOn new (h _ _ hx)
  | leaves hx hn ho ht => exact .leaves (h _ _ hx) hn ho ht

theorem Orders.single {stmt : Stmt} (h : Orders prog (execute this stmt) s declared o) :
    Orders prog (executeAll this [stmt]) s declared o :=
  h.imp fun _ _ => Executes.single

/-- A run after another one, unless the first one leaves. -/
def andThen (x y : Run Flow) : Run Flow := do
  match ← x with
  | .next => y
  | .returned v => return .returned v

/-- **The first difference decides.** -/
theorem Orders.andThen {x y : Run Flow} (h : Orders prog x s [] o)
    (h' : o = .eq → ∀ new, Orders prog y (s.grow new) declared o') :
    Orders prog (Machine.andThen x y) s declared (o.then o') := by
  cases h with
  | leaves hx hn ho ht =>
    rw [then_of_ne ho]
    exact .leaves (Yields.bind hx (Yields.result _ _)) hn ho ht
  | goesOn new hx =>
    cases h' rfl new with
    | goesOn new' hy =>
      rw [State.grow_grow] at hy
      exact .goesOn (new ++ new') (Yields.bind hx hy)
    | leaves hy hn ho ht =>
      exact .leaves (Yields.bind hx hy) hn ho ((s.prefix_grow new).trans ht)

theorem Orders.append {xs ys : List Stmt} (h : Orders prog (executeAll this xs) s [] o)
    (h' : o = .eq → ∀ new, Orders prog (executeAll this ys) (s.grow new) declared o') :
    Orders prog (executeAll this (xs ++ ys)) s declared (o.then o') := by
  rw [executeAll_append]
  exact h.andThen h'

theorem Orders.cons {stmt : Stmt} {rest : List Stmt} (h : Orders prog (execute this stmt) s [] o)
    (h' : o = .eq → ∀ new, Orders prog (executeAll this rest) (s.grow new) declared o') :
    Orders prog (executeAll this (stmt :: rest)) s declared (o.then o') :=
  h.single.append h'

theorem Orders.after_unchanged {xs ys : List Stmt} (h : Executes prog this s xs .next s)
    (h' : Orders prog (executeAll this ys) s declared o) :
    Orders prog (executeAll this (xs ++ ys)) s declared o := by
  cases h' with
  | goesOn new hy => exact .goesOn new (Executes.append h hy)
  | leaves hy hn ho ht => exact .leaves (Executes.append h hy) hn ho ht

/-- Statements that only prepare the comparison. -/
theorem Orders.after {xs ys : List Stmt} {new : Heap} {locals : Fields Value}
    (h : Executes prog this s xs .next ((s.grow new).push locals))
    (h' : Orders prog (executeAll this ys) ((s.grow new).push locals) declared o) :
    Orders prog (executeAll this (xs ++ ys)) s (declared ++ locals) o := by
  cases h' with
  | goesOn new' hy =>
    rw [State.grow_push, State.push_push, State.grow_grow] at hy
    exact .goesOn (new ++ new') (Executes.append h hy)
  | leaves hy hn ho ht =>
    exact .leaves (Executes.append h hy) hn ho ((s.prefix_grow new).trans ht)

/-- Lists of statements one after another. -/
theorem Orders.flatMap {α : Type} {l : List α} {stmts : α → List Stmt} {f : α → Ordering}
    (h : ∀ x ∈ l, ∀ new, Orders prog (executeAll this (stmts x)) (s.grow new) [] (f x)) :
    Orders prog (executeAll this (l.flatMap stmts)) s [] (firstOf (l.map f)) := by
  induction l generalizing s with
  | nil => exact .goesOn [] (by rw [State.grow_nil]; exact Executes.nil)
  | cons x l ih =>
    have hx := h x List.mem_cons_self []
    rw [State.grow_nil] at hx
    rw [List.flatMap_cons, List.map_cons, firstOf]
    refine hx.append fun _ new => ih fun y hy new' => ?_
    rw [State.grow_grow]
    exact h y (List.mem_cons_of_mem _ hy) _

/-- The locals of a block are gone after it. -/
theorem Orders.block {locals : Fields Value} {body : List Stmt}
    (h : Orders prog (executeAll this body) (s.push locals) declared o) :
    Orders prog (block this locals body) s [] o := by
  cases h with
  | goesOn new hx =>
    rw [State.grow_push, State.push_push] at hx
    exact .goesOn new (yields_blockTo (s := s) _ hx rfl)
  | leaves hx hn ho ht =>
    refine .leaves (t := State.leave _ s.locals.length) ?_ hn ho ht
    refine Yields.bind (Yields.state s) (Yields.bind (Yields.update _ s) (Yields.bind hx ?_))
    exact Yields.bind (Yields.update _ _) (Yields.result _ _)

/-- Statements behind a condition that holds. -/
theorem Orders.ifThen {condition : Expr} {yes : List Stmt}
    (hc : Evaluates prog this s condition (.bool true))
    (h : Orders prog (executeAll this yes) s declared o) :
    Orders prog (execute this (.ifThen condition yes)) s [] o := by
  have hblock : Orders prog (Machine.block this [] yes) s [] o := Orders.block h
  exact hblock.imp fun _ _ hblock => yields_ifElse hc hblock

theorem yields_leaveWith {condition : Expr} {n : Int}
    (hc : Evaluates prog this s condition (.bool true)) :
    Yields prog (execute this (.ifThen condition [.ret (.int n)])) s (.returned (.int n)) s :=
  yields_ifThen hc (fun _ => ⟨[], .single (yields_ret (evaluates_int n))⟩) nofun

theorem yields_passBy {condition : Expr} {yes : List Stmt}
    (hc : Evaluates prog this s condition (.bool false)) :
    Yields prog (execute this (.ifThen condition yes)) s .next s :=
  yields_ifElse hc yields_emptyBlock

theorem evaluates_checkResult {n : Int} (h : Fields.get? s.locals compareResult = some (.int n)) :
    Evaluates prog this s ((Expr.ident compareResult).notEqualTo (.int 0)) (.bool !(n == 0)) :=
  .notEqualTo (.localOf h) (evaluates_int 0) rfl rfl (Yields.result _ s)

/-- Without a difference the local for the result is as before. -/
theorem executes_setAndCheck_zero {e : Expr} (he : Yields prog (evaluate this e) s (.int 0) t)
    (hzero : Fields.get? t.locals compareResult = some (.int 0)) :
    Executes prog this s (setAndCheck e) .next t := by
  have hassign := yields_assignLocal he hzero
  rw [State.set_self hzero] at hassign
  exact .next hassign (.single (yields_passBy (evaluates_checkResult hzero)))

/-- A difference leaves the method. -/
theorem executes_setAndCheck_leave {e : Expr} {n : Int} {old : Value}
    (he : Yields prog (evaluate this e) s (.int n) t)
    (hold : Fields.get? t.locals compareResult = some old) (hn : n ≠ 0) :
    Executes prog this s (setAndCheck e) (.returned (.int n)) (t.set compareResult (.int n)) := by
  have hresult : Fields.get? (t.set compareResult (.int n)).locals compareResult =
      some (.int n) := by
    rw [State.get?_set, if_pos rfl]
  have htest : Evaluates prog this (t.set compareResult (.int n)) _ (.bool !(n == 0)) :=
    evaluates_checkResult hresult
  rw [beq_false_of_ne hn] at htest
  refine .next (yields_assignLocal he hold) (.single (yields_ifThen htest (fun _ => ⟨[], ?_⟩) nofun))
  exact .single (yields_ret (.localOf hresult))

theorem orders_setAndCheck {e : Expr} (hzero : Fields.get? s.locals compareResult = some (.int 0))
    (he : Compares prog (evaluate this e) s o) :
    Orders prog (executeAll this (setAndCheck e)) s [] o := by
  obtain ⟨n, new, hyields, hn⟩ := he
  by_cases h : n = 0
  · subst h
    rw [← hn]
    exact .goesOn new (executes_setAndCheck_zero hyields hzero)
  · refine .leaves (executes_setAndCheck_leave hyields hzero h) hn ?_ (s.prefix_grow new)
    rw [← hn, ne_eq, signOf_eq_iff]
    exact h

/-- **A loop over numbers decides by the first turn with a difference.** -/
theorem below_orders {index : String} {bound : Expr} {body : List Stmt} {total i : Nat}
    {tests : List Ordering}
    (hbound : ∀ new, Evaluates prog this (s.grow new) bound (.int total))
    (hlen : i + tests.length = total)
    (hstep : ∀ j o, tests[j]? = some o → ∀ new,
      Orders prog (Machine.block this [(index, .int ↑(i + j))] body) (s.grow new) [] o) :
    Orders prog (below this index bound body i) s [] (firstOf tests) := by
  have hbound' : Evaluates prog this s bound (.int total) := s.grow_nil ▸ hbound []
  -- over the turns that are left; those before have only made new objects
  induction tests generalizing i s with
  | nil =>
    have hend : ¬ (i : Int) < total := by
      rw [List.length_nil] at hlen
      omega
    refine .goesOn [] (yields_below (Yields.bind hbound' ?_))
    simp only [if_neg hend, State.grow_nil]
    exact Yields.result _ s
  | cons o tests ih =>
    have hlt : (i : Int) < total := by
      rw [List.length_cons] at hlen
      omega
    have hstep' (new : Heap) : Orders prog (below this index bound body (i + 1)) (s.grow new) []
        (firstOf tests) := by
      refine ih (fun new' => ?_) (by rw [List.length_cons] at hlen; omega) (fun j o hj new' => ?_)
        (hbound new)
      · rw [State.grow_grow]
        exact hbound _
      · rw [State.grow_grow, Nat.add_right_comm i 1 j]
        exact hstep (j + 1) o hj _
    have hfirst := hstep 0 o rfl []
    rw [State.grow_nil] at hfirst
    refine (hfirst.andThen fun _ new => hstep' new).imp fun flow t hturn => ?_
    refine yields_below (Yields.bind hbound' ?_)
    simp only [if_pos hlt]
    exact hturn

/-! ## Comparisons -/

theorem evaluates_ordinal {left right : Expr} {v w u : Value} (hl : Evaluates prog this s left v)
    (hr : Evaluates prog this s right w)
    (h : Yields prog (compareTexts prog.leafOrder v w) s u s) :
    Evaluates prog this s (ordinal left right) u := by
  refine yields_evaluate ?_
  show Yields prog (call prog this (.textCompare left right)) s u s
  exact Yields.bind hl (Yields.bind hr h)

theorem evaluates_compareTo {left right : Expr} {v w u : Value} (hl : Evaluates prog this s left v)
    (hr : Evaluates prog this s right w)
    (h : Yields prog (callMethod prog v "CompareTo" [w]) s u s) :
    Evaluates prog this s (.call (.member left "CompareTo") [right]) u := by
  refine yields_evaluate ?_
  show Yields prog (call prog this (Call.of (.member left "CompareTo") [right])) s u s
  rw [show Call.of (.member left "CompareTo") [right] = .method left "CompareTo" [right] by
    simp [Call.of]]
  exact Yields.bind hl (Yields.bind
    (Yields.bind hr (Yields.bind (Yields.result [] s) (Yields.result [w] s))) h)

theorem compares_classComparison {name : String} {left right : Expr} {v w : Value}
    (hl : Evaluates prog this s left v) (hr : Evaluates prog this s right w)
    (h : Compares prog (compareObjects prog v w) s o) :
    Compares prog (evaluate this (classComparison name left right)) s o := by
  obtain ⟨n, new, hyields, hn⟩ := h
  refine ⟨n, new, yields_evaluate ?_, hn⟩
  show Yields prog (call prog this (.defaultCompare left right)) s _ _
  exact Yields.bind hl (Yields.bind hr hyields)

/-! ## Sorted keys -/

theorem mapM_text? (keys : List String) :
    (keys.map fun key => Value.leaf (.text key)).mapM Value.text? = some keys := by
  induction keys with
  | nil => rfl
  | cons key keys ih => simp [Value.text?, ih]

theorem texts_le_iff {order : LeafOrder} (horder : order.Lawful) (a b : String) :
    order.texts a b ≤ 0 ↔ a ≤ b := by
  have hsign : signOf (order.texts a b) = compareOfLessAndEq a b := horder.texts a b
  have hle : (compareOfLessAndEq a b).isLE = true ↔ a ≤ b :=
    isLE_compareOfLessAndEq String.le_antisymm String.not_le String.le_total
  rw [← hle, ← hsign, isLE_signOf_iff]

/-- **The keys of a map are sorted alike** by the comparer and by the evaluator. -/
theorem mergeSort_keys {order : LeafOrder} (horder : order.Lawful) {α : Type} (fields : Fields α) :
    fields.keys.mergeSort (fun a b => decide (order.texts a b ≤ 0)) = (Fields.sorted fields).keys := by
  have hle (a b : String) : decide (order.texts a b ≤ 0) = true ↔ a ≤ b := by
    rw [decide_eq_true_iff, texts_le_iff horder]
  -- both lists are sorted, and there is one sorted list of the keys only
  refine List.Perm.eq_of_pairwise (fun a b _ _ hab hba => String.le_antisymm hab hba) ?_
    (Fields.keys_sorted_pairwise fields)
    ((List.mergeSort_perm _ _).trans (Fields.keys_sorted_perm fields).symm)
  refine List.Pairwise.imp (fun {a b} h => (hle a b).1 h) (List.pairwise_mergeSort ?_ ?_ fields.keys)
  · intro a b c hab hbc
    exact (hle a c).2 (String.le_trans ((hle a b).1 hab) ((hle b c).1 hbc))
  · intro a b
    rw [Bool.or_eq_true, hle, hle]
    exact String.le_total a b

/-- The keys of a map as a list of values, sorted. -/
def sortedKeys {α : Type} (fields : Fields α) : List Value :=
  (Fields.sorted fields).keys.map fun key => .leaf (.text key)

/-- A local for the sorted keys of a map. -/
theorem executes_sortedKeys (horder : prog.leafOrder.Lawful) (name : String) {map : Expr}
    {address : Nat} {entries : Fields Value} (hm : Evaluates prog this s map (.ref address))
    (ho : s.heap.object? address = some (.dictionary entries)) :
    Executes prog this s [.var name (keyList map), sortKeys name] .next
      ((s.grow [⟨.list (sortedKeys entries), 1⟩]).push [(name, .ref s.heap.length)]) := by
  let keys := entries.map fun e => Value.leaf (.text e.1)
  let t := (s.grow [⟨.list keys, 0⟩]).push [(name, .ref s.heap.length)]
  have hdeclare : Yields prog (execute this (.var name (keyList map))) s .next t :=
    yields_declare (yields_keyList hm ho)
  have hname : Evaluates prog this t (.ident name) (.ref s.heap.length) := by
    apply Evaluates.localOf
    rw [State.get?_push_cons, if_pos rfl]
  have hlist : t.heap.object? s.heap.length = some (.list keys) :=
    Heap.object?_append_singleton s.heap _
  have hsort : Yields prog (sortTexts prog.leafOrder (.ref s.heap.length)) t .null
      (t.write s.heap.length (.list (sortedKeys entries))) := by
    refine Yields.bind (yields_object hlist) ?_
    have htexts : keys.mapM Value.text? = some entries.keys := by
      have hkeys : keys = entries.keys.map fun key => Value.leaf (.text key) := by
        rw [Fields.keys, List.map_map]
        rfl
      rw [hkeys, mapM_text?]
    simp only [htexts, mergeSort_keys horder]
    exact Yields.bind (Yields.update _ t) (Yields.result _ _)
  have hwrite : t.write s.heap.length (.list (sortedKeys entries)) =
      (s.grow [⟨.list (sortedKeys entries), 1⟩]).push [(name, .ref s.heap.length)] :=
    congrArg (State.push · _) (s.write_grow_singleton _ _)
  rw [← hwrite]
  refine .next hdeclare (.single (yields_execute ?_))
  refine Yields.bind (yields_evaluate (v := .null) ?_) (Yields.result _ _)
  show Yields prog (call prog this (.sortTexts (.ident name))) t _ _
  exact Yields.bind hname hsort

end

end Classwright.Machine
