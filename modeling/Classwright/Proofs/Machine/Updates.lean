import Classwright.Proofs.Machine.Rules

/-!
# Rules for code that changes the state

Code that computes hashes, copies or visits assigns to locals, writes to objects and makes new ones.
The rules here carry the state from one statement to the next.

* **`Changed`** bounds what a run may have changed: locals of given names, and objects at given
  addresses. New objects are always allowed.
* **`Stable`** is an expression that has one value whatever changes within such bounds. Loops evaluate
  the same expressions again after their bodies have run.
* **`each_invariant`**, **`below_invariant`** are the rules for loops: what one turn keeps, a whole
  loop keeps.
* **`Evaluates.isNull`**, **`Evaluates.isNotNull`** — a test for `null` runs operators of the class of
  an object, and it neither fails nor changes anything.
-/

namespace Classwright.Machine

open Code Emit

/-! ## Changes of a state -/

namespace State

/-- Assigns to a local. -/
def set (s : State) (name : String) (v : Value) : State :=
  { s with locals := s.locals.insert name v }

theorem get?_set (s : State) (name : String) (v : Value) (name' : String) :
    Fields.get? (s.set name v).locals name' =
      if name' = name then some v else Fields.get? s.locals name' :=
  Fields.get?_insert s.locals name v name'

theorem get?_push_cons (s : State) (name : String) (v : Value) (xs : Fields Value) (name' : String) :
    Fields.get? (s.push ((name, v) :: xs)).locals name' =
      if name' = name then some v else Fields.get? (s.push xs).locals name' :=
  Fields.get?_cons name name' v _

theorem get?_push_nil (s : State) (name : String) :
    Fields.get? (s.push []).locals name = Fields.get? s.locals name := rfl

/-- Locals that were declared later are not in the way. -/
theorem set_push (s : State) {xs : Fields Value} {name : String} (h : name ∉ xs.keys) (v : Value) :
    (s.push xs).set name v = (s.set name v).push xs := by
  simp only [set, push, Fields.insert_append h]

theorem set_push_self (s : State) (name : String) (old v : Value) (xs : Fields Value) :
    (s.push ((name, old) :: xs)).set name v = s.push ((name, v) :: xs) := by
  simp [set, push, Fields.insert]

theorem set_self {s : State} {name : String} {v : Value} (h : Fields.get? s.locals name = some v) :
    s.set name v = s := by
  rw [set, Fields.insert_self h]

theorem set_set (s : State) (name : String) (v w : Value) :
    (s.set name v).set name w = s.set name w := by
  simp only [set, Fields.insert_insert]

theorem length_set {s : State} {name : String} {old : Value}
    (h : Fields.get? s.locals name = some old) (v : Value) :
    (s.set name v).locals.length = s.locals.length :=
  Fields.length_insert_of_get? h v

/-- Leaving keeps what happened to older locals and to the heap. -/
theorem leave_push_of_length {s u : State} (h : u.locals.length = s.locals.length)
    (xs : Fields Value) : (u.push xs).leave s.locals.length = u := by
  rw [← h, leave_push]

theorem grow_nil (s : State) : s.grow [] = s := by
  rw [grow, List.append_nil]

theorem object?_write (s : State) {address : Nat} (h : address < s.heap.length) (o : Object)
    (x : Nat) :
    (s.write address o).heap.object? x = if x = address then some o else s.heap.object? x := by
  simp only [write, Heap.object?, List.getElem?_modify]
  by_cases hx : x = address
  · simp [hx, h]
  · simp [hx, Ne.symm hx]

theorem prefix_write {s : State} {old : Heap} (h : old <+: s.heap) {address : Nat}
    (ha : old.length ≤ address) (o : Object) : old <+: (s.write address o).heap := by
  rw [List.prefix_iff_getElem?] at h ⊢
  intro i hi
  have hne : address ≠ i := by omega
  simp [write, h i hi, hne]

end State

namespace Heap

theorem exists_cell {heap : Heap} {address : Nat} {o : Object}
    (h : heap.object? address = some o) : ∃ cell, heap[address]? = some cell ∧ cell.object = o := by
  rwa [object?, Option.map_eq_some_iff] at h

theorem lt_of_object? {heap : Heap} {address : Nat} {o : Object}
    (h : heap.object? address = some o) : address < heap.length := by
  obtain ⟨cell, hcell, -⟩ := exists_cell h
  exact (List.getElem?_eq_some_iff.1 hcell).1

end Heap

/-- A state differs from another one at most in locals of the given names and in objects at the given
addresses. There may be new objects. -/
structure Changed (names : List String) (cells : Nat → Prop) (s t : State) : Prop where
  locals (name : String) (h : name ∉ names) :
    Fields.get? t.locals name = Fields.get? s.locals name
  objects (address : Nat) (h : address < s.heap.length) (hc : ¬ cells address) :
    t.heap[address]? = s.heap[address]?
  grown : s.heap.length ≤ t.heap.length

namespace Changed

variable {names : List String} {cells : Nat → Prop} {s t u : State}

theorem refl (names : List String) (cells : Nat → Prop) (s : State) : Changed names cells s s :=
  ⟨fun _ _ => rfl, fun _ _ _ => rfl, Nat.le_refl _⟩

theorem trans (h : Changed names cells s t) (h' : Changed names cells t u) :
    Changed names cells s u where
  locals name hn := (h'.locals name hn).trans (h.locals name hn)
  objects address ha hc :=
    (h'.objects address (Nat.lt_of_lt_of_le ha h.grown) hc).trans (h.objects address ha hc)
  grown := Nat.le_trans h.grown h'.grown

theorem mono {names' : List String} {cells' : Nat → Prop} (h : Changed names cells s t)
    (hn : names ⊆ names') (hc : ∀ address, address < s.heap.length → cells address → cells' address) :
    Changed names' cells' s t where
  locals name hname := h.locals name fun hmem => hname (hn hmem)
  objects address ha hcell := h.objects address ha fun hmem => hcell (hc address ha hmem)
  grown := h.grown

theorem object? (h : Changed names cells s t) {address : Nat} {o : Object}
    (ho : s.heap.object? address = some o) (hc : ¬ cells address) :
    t.heap.object? address = some o := by
  rw [Heap.object?, h.objects address (Heap.lt_of_object? ho) hc]
  exact ho

theorem push {xs : Fields Value} (h : Changed names cells s t) (hn : xs.keys ⊆ names) :
    Changed names cells s (t.push xs) where
  locals name hname := by
    rw [State.get?_push_of_not_mem t fun hmem => hname (hn hmem), h.locals name hname]
  objects := h.objects
  grown := h.grown

end Changed

/-- An expression that keeps its value while only locals of the given names and objects at the given
addresses change. -/
def Stable (prog : Program) (this : Value) (s : State) (names : List String) (cells : Nat → Prop)
    (e : Expr) (v : Value) : Prop :=
  ∀ t, Changed names cells s t → Evaluates prog this t e v

namespace Stable

variable {prog : Program} {this : Value} {s t : State} {names : List String} {cells : Nat → Prop}
  {e : Expr} {v : Value}

theorem evaluates (h : Stable prog this s names cells e v) : Evaluates prog this s e v :=
  h s (.refl names cells s)

theorem changed (h : Stable prog this s names cells e v) (ht : Changed names cells s t) :
    Stable prog this t names cells e v :=
  fun u hu => h u (ht.trans hu)

theorem mono {names' : List String} {cells' : Nat → Prop} (h : Stable prog this s names cells e v)
    (hn : names' ⊆ names)
    (hc : ∀ address, address < s.heap.length → cells' address → cells address) :
    Stable prog this s names' cells' e v :=
  fun t ht => h t (ht.mono hn hc)

theorem localOf {name : String} (h : Fields.get? s.locals name = some v) (hn : name ∉ names) :
    Stable prog this s names cells (.ident name) v := by
  intro t ht
  apply Evaluates.localOf
  rw [ht.locals name hn, h]

theorem property {address : Nat} {className name : String} {properties : Fields Value}
    (h : Fields.get? s.locals name = none) (hn : name ∉ names) (hc : ¬ cells address)
    (ho : s.heap.object? address = some (.instanceOf className properties))
    (hv : properties.get? name = some v) :
    Stable prog (.ref address) s names cells (.ident name) v := by
  intro t ht
  refine Evaluates.property ?_ (yields_property (ht.object? ho hc) hv)
  rw [ht.locals name hn, h]

theorem member {address : Nat} {className name : String} {properties : Fields Value}
    (h : Stable prog this s names cells e (.ref address)) (hc : ¬ cells address)
    (ho : s.heap.object? address = some (.instanceOf className properties))
    (hv : properties.get? name = some v) : Stable prog this s names cells (.member e name) v :=
  fun t ht => .member (h t ht) (yields_property (ht.object? ho hc) hv)

theorem index {address : Nat} {o : Object} {position : Expr} {i : Value}
    (h : Stable prog this s names cells e (.ref address))
    (hi : Stable prog this s names cells position i) (hc : ¬ cells address)
    (ho : s.heap.object? address = some o)
    (hv : ∀ t : State, t.heap.object? address = some o →
      Yields prog (readIndex (.ref address) i) t v t) :
    Stable prog this s names cells (.index e position) v :=
  fun t ht => .index (h t ht) (hi t ht) (hv t (ht.object? ho hc))

/-- The value of an entry that a loop has met lies in a local, not in the heap. -/
theorem entryValue {key : String} (h : Stable prog this s names cells e (.entry key v)) :
    Stable prog this s names cells (.member e "Value") v :=
  fun t ht => .member (h t ht) (Yields.result v t)

end Stable

/-! ## Assignments -/

section

variable {prog : Program} {this : Value} {s t u : State}

theorem evaluates_int (n : Int) : Evaluates prog this s (.int n) (.int n) := by
  refine yields_evaluate ?_
  exact Yields.result _ s

theorem yields_assignLocal {name : String} {e : Expr} {old v : Value}
    (he : Yields prog (evaluate this e) s v t) (hl : Fields.get? t.locals name = some old) :
    Yields prog (execute this (.assign (.ident name) e)) s .next (t.set name v) := by
  refine yields_execute ?_
  have hname : Yields prog (writeName this name v) t () (t.set name v) := by
    refine Yields.bind (Yields.state t) ?_
    rw [if_pos (by rw [Fields.contains_eq, hl]; rfl)]
    exact Yields.update _ t
  exact Yields.bind he (Yields.bind hname (Yields.result _ _))

theorem yields_writeMember {address : Nat} {className name : String} {properties : Fields Value}
    {v : Value} (ho : s.heap.object? address = some (.instanceOf className properties)) :
    Yields prog (writeMember (.ref address) name v) s ()
      (s.write address (.instanceOf className (properties.insert name v))) :=
  Yields.bind (yields_object ho) (Yields.update _ s)

/-- A name that is no local is a property of `this`. -/
theorem yields_assignProperty {address : Nat} {className name : String} {properties : Fields Value}
    {e : Expr} {v : Value} (he : Yields prog (evaluate (.ref address) e) s v t)
    (hl : Fields.get? t.locals name = none)
    (ho : t.heap.object? address = some (.instanceOf className properties)) :
    Yields prog (execute (.ref address) (.assign (.ident name) e)) s .next
      (t.write address (.instanceOf className (properties.insert name v))) := by
  refine yields_execute ?_
  have hname : Yields prog (writeName (.ref address) name v) t ()
      (t.write address (.instanceOf className (properties.insert name v))) := by
    refine Yields.bind (Yields.state t) ?_
    rw [if_neg (by rw [Fields.contains_eq, hl]; exact Bool.false_ne_true)]
    exact yields_writeMember ho
  exact Yields.bind he (Yields.bind hname (Yields.result _ _))

theorem yields_assignMember {target : Expr} {address : Nat} {className name : String}
    {properties : Fields Value} {e : Expr} {v : Value}
    (htarget : Evaluates prog this s target (.ref address))
    (he : Yields prog (evaluate this e) s v t)
    (ho : t.heap.object? address = some (.instanceOf className properties)) :
    Yields prog (execute this (.assign (.member target name) e)) s .next
      (t.write address (.instanceOf className (properties.insert name v))) := by
  refine yields_execute ?_
  exact Yields.bind htarget (Yields.bind he (Yields.bind (yields_writeMember ho) (Yields.result _ _)))

/-- What is assigned goes to the element of a container. -/
theorem yields_assignIndex {target position : Expr} {o i : Value} {e : Expr} {v : Value}
    (htarget : Evaluates prog this s target o) (hposition : Evaluates prog this s position i)
    (he : Yields prog (evaluate this e) s v t) (hwrite : Yields prog (writeIndex o i v) t () u) :
    Yields prog (execute this (.assign (.index target position) e)) s .next u := by
  refine yields_execute ?_
  exact Yields.bind htarget (Yields.bind hposition (Yields.bind he
    (Yields.bind hwrite (Yields.result _ _))))

theorem yields_writeItem {address i : Nat} {items : List Value}
    (ho : s.heap.object? address = some (.list items)) (hi : i < items.length) (v : Value) :
    Yields prog (writeIndex (.ref address) (.int i) v) s ()
      (s.write address (.list (items.set i v))) := by
  refine Yields.bind (yields_object ho) ?_
  have hrange : (0 : Int) ≤ i ∧ (i : Int) < items.length := by omega
  simp only [if_pos hrange, Int.toNat_natCast]
  exact Yields.update _ s

theorem yields_writeEntry {address : Nat} {entries : Fields Value}
    (ho : s.heap.object? address = some (.dictionary entries)) (key : String) (v : Value) :
    Yields prog (writeIndex (.ref address) (.leaf (.text key)) v) s ()
      (s.write address (.dictionary (entries.insert key v))) :=
  Yields.bind (yields_object ho) (Yields.update _ s)

theorem yields_addItem {target : Expr} {address : Nat} {items : List Value} {e : Expr} {v : Value}
    (htarget : Evaluates prog this s target (.ref address))
    (he : Yields prog (evaluate this e) s v t) (ho : t.heap.object? address = some (.list items)) :
    Yields prog (execute this (.expr (.call (.member target "Add") [e]))) s .next
      (t.write address (.list (items ++ [v]))) := by
  have hadd : Yields prog (callMethod prog (.ref address) "Add" [v]) t .null
      (t.write address (.list (items ++ [v]))) :=
    Yields.bind (yields_object ho) (Yields.bind (Yields.update _ t) (Yields.result _ _))
  refine yields_execute ?_
  refine Yields.bind (yields_evaluate (v := .null) ?_) (Yields.result _ _)
  show Yields prog (call prog this (Call.of (.member target "Add") [e])) s _ _
  rw [show Call.of (.member target "Add") [e] = .method target "Add" [e] by simp [Call.of]]
  exact Yields.bind htarget (Yields.bind
    (Yields.bind he (Yields.bind (Yields.result [] t) (Yields.result [v] t))) hadd)

/-! ## Blocks and methods -/

/-- A block leaves what it did to older locals and to the heap. -/
theorem yields_blockTo {locals : Fields Value} {body : List Stmt} {flow : Flow} (ext : Fields Value)
    (h : Executes prog this (s.push locals) body flow (u.push ext))
    (hlen : u.locals.length = s.locals.length) : Yields prog (block this locals body) s flow u := by
  refine Yields.bind (Yields.state s) (Yields.bind (Yields.update _ s) (Yields.bind h ?_))
  refine Yields.bind (Yields.update _ _) ?_
  rw [State.leave_push_of_length hlen]
  exact Yields.result flow u

theorem yields_ifElse {condition : Expr} {yes no : List Stmt} {b : Bool} {flow : Flow}
    (hc : Evaluates prog this s condition (.bool b))
    (h : Yields prog (block this [] (if b then yes else no)) s flow t) :
    Yields prog (execute this (.ifElse condition yes no)) s flow t := by
  refine yields_execute ?_
  refine Yields.bind hc (Yields.bind (yields_truth b) ?_)
  cases b with
  | true => exact h
  | false => exact h

theorem yields_emptyBlock : Yields prog (block this [] []) s .next s :=
  yields_blockTo [] Executes.nil rfl

/-- A method leaves what it did to the heap, and the locals of its caller are back. -/
theorem yields_invokeTo {m : MethodDecl} {body : List Stmt} {arguments : List Value} {flow : Flow}
    {v : Value} (hbody : m.body = some body)
    (h : Executes prog this { s with locals := (m.params.map Param.name).zip arguments } body flow t)
    (hv : flow = .returned v ∨ flow = .next ∧ v = .null) :
    Yields prog (invoke this m arguments) s v { t with locals := s.locals } := by
  rw [invoke, hbody]
  refine Yields.bind (Yields.state s) (Yields.bind (Yields.update _ s) (Yields.bind h ?_))
  refine Yields.bind (Yields.update _ t) ?_
  rcases hv with rfl | ⟨rfl, rfl⟩
  · exact Yields.result _ _
  · exact Yields.result _ _

/-! ## Loops -/

theorem yields_forBelowTo {index : String} {bound : Expr} {body : List Stmt} {flow : Flow}
    (h : Yields prog (below this index bound body 0) s flow t) :
    Yields prog (execute this (.forBelow index bound body)) s flow t := by
  refine yields_execute ?_
  exact h

/-- **What each turn of a loop over numbers keeps, the loop keeps.** -/
theorem below_invariant {I : Nat → State → Prop} {index : String} {bound : Expr} {body : List Stmt}
    {total i : Nat} (hi : i ≤ total)
    (hbound : ∀ j t, I j t → Evaluates prog this t bound (.int total))
    (hstep : ∀ j t, j < total → I j t →
      ∃ u, Yields prog (block this [(index, .int j)] body) t .next u ∧ I (j + 1) u) (h : I i s) :
    ∃ t, Yields prog (below this index bound body i) s .next t ∧ I total t := by
  -- over the number of turns that are left
  induction hn : total - i generalizing i s with
  | zero =>
    have hend : ¬ (i : Int) < total := by omega
    have hdone : i = total := by omega
    refine ⟨s, yields_below ?_, hdone ▸ h⟩
    refine Yields.bind (hbound i s h) ?_
    simp only [if_neg hend]
    exact Yields.result _ s
  | succ n ih =>
    have hlt : i < total := by omega
    have hlt' : (i : Int) < total := by omega
    obtain ⟨u, hblock, hu⟩ := hstep i s hlt h
    obtain ⟨t, hrest, ht⟩ := ih hlt hu (by omega)
    refine ⟨t, yields_below ?_, ht⟩
    refine Yields.bind (hbound i s h) ?_
    simp only [if_pos hlt']
    exact Yields.bind hblock hrest

theorem yields_forEachTo {item : String} {type : Option TypeRef} {items : Expr} {body : List Stmt}
    {collection : Value} {version : Nat} {values : List Value} {flow : Flow}
    (hc : Yields prog (evaluate this items) s collection t)
    (hw : Yields prog (writes collection) t version t)
    (hv : Yields prog (elements collection) t values t)
    (h : Yields prog (each this item body collection version values) t flow u) :
    Yields prog (execute this (.forEach item type items body)) s flow u := by
  refine yields_execute ?_
  exact Yields.bind hc (Yields.bind hw (Yields.bind hv h))

/-- **What each turn of a loop over a container keeps, the loop keeps**, as long as nothing is written
to the container. `I rest t` is what holds when the elements of `rest` are left. -/
theorem each_invariant {α : Type} {I : List α → State → Prop} {f : α → Value} {item : String}
    {body : List Stmt} {collection : Value} {version : Nat} {l : List α}
    (hw : ∀ rest t, I rest t → Yields prog (writes collection) t version t)
    (hstep : ∀ x rest t, x ∈ l → I (x :: rest) t →
      ∃ u, Yields prog (block this [(item, f x)] body) t .next u ∧ I rest u) (h : I l s) :
    ∃ t, Yields prog (each this item body collection version (l.map f)) s .next t ∧ I [] t := by
  induction l generalizing s with
  | nil =>
    refine ⟨s, Yields.bind (hw [] s h) ?_, h⟩
    rw [if_pos rfl]
    exact Yields.result _ s
  | cons x l ih =>
    obtain ⟨u, hblock, hu⟩ := hstep x l s List.mem_cons_self h
    obtain ⟨t, hrest, ht⟩ := ih (fun y rest t hy => hstep y rest t (List.mem_cons_of_mem _ hy)) hu
    refine ⟨t, Yields.bind (hw _ s h) ?_, ht⟩
    rw [if_pos rfl]
    exact Yields.bind hblock hrest

theorem yields_writesOf {address : Nat} {cell : Cell} (h : s.heap[address]? = some cell) :
    Yields prog (writes (.ref address)) s cell.writes s := by
  have hvalue : cell.writes = (s.heap[address]?.map Cell.writes).getD 0 := by
    rw [h]
    rfl
  rw [hvalue]
  exact Yields.bind (Yields.state s) (Yields.result _ s)

theorem yields_listElements {address : Nat} {items : List Value}
    (h : s.heap.object? address = some (.list items)) :
    Yields prog (elements (.ref address)) s items s :=
  Yields.bind (yields_object h) (Yields.result _ s)

theorem yields_entry {address : Nat} {entries : Fields Value} {key : String} {v : Value}
    (h : s.heap.object? address = some (.dictionary entries)) (hv : entries.get? key = some v) :
    Yields prog (readIndex (.ref address) (.leaf (.text key))) s v s := by
  refine Yields.bind (yields_object h) ?_
  simp only [hv]
  exact Yields.result v s

/-! ## New objects -/

theorem yields_allocate (o : Object) :
    Yields prog (allocate o) s (.ref s.heap.length) (s.grow [⟨o, 0⟩]) :=
  Yields.bind (Yields.state s) (Yields.bind (Yields.update _ s) (Yields.result _ _))

theorem yields_new {type : TypeRef} {arguments : List Expr} {values : List Value} {v : Value}
    (ha : Yields prog (evaluateAll this arguments) s values t)
    (h : Yields prog (construct prog type values) t v u) :
    Yields prog (evaluate this (.new type arguments)) s v u := by
  refine yields_evaluate ?_
  exact Yields.bind ha h

theorem yields_evaluateAll_nil : Yields prog (evaluateAll this []) s [] s := Yields.result [] s

theorem yields_evaluateAll_cons {e : Expr} {rest : List Expr} {v : Value} {values : List Value}
    (he : Yields prog (evaluate this e) s v t)
    (hrest : Yields prog (evaluateAll this rest) t values u) :
    Yields prog (evaluateAll this (e :: rest)) s (v :: values) u :=
  Yields.bind he (Yields.bind hrest (Yields.result _ u))

theorem yields_evaluateAll_map {α : Type} {l : List α} {f : α → Expr} {g : α → Value}
    (h : ∀ x ∈ l, Evaluates prog this s (f x) (g x)) :
    Yields prog (evaluateAll this (l.map f)) s (l.map g) s := by
  induction l with
  | nil => exact yields_evaluateAll_nil
  | cons x l ih =>
    exact yields_evaluateAll_cons (h x List.mem_cons_self)
      (ih fun y hy => h y (List.mem_cons_of_mem _ hy))

/-- The keys of a dictionary as a list of their own. -/
theorem yields_keyList {target : Expr} {address : Nat} {entries : Fields Value} {type : TypeRef}
    (htarget : Evaluates prog this s target (.ref address))
    (ho : s.heap.object? address = some (.dictionary entries)) :
    Yields prog (evaluate this (.new (.generic "List" [type]) [.member target "Keys"])) s
      (.ref s.heap.length)
      (s.grow [⟨.list (entries.map fun e => .leaf (.text e.1)), 0⟩]) := by
  have hkeys : Evaluates prog this s (.member target "Keys") (.keys (.ref address)) :=
    .member htarget (Yields.bind (yields_object ho) (Yields.result _ s))
  have helements : Yields prog (elements (.keys (.ref address))) s
      (entries.map fun e => .leaf (.text e.1)) s :=
    Yields.bind (yields_object ho) (Yields.result _ s)
  exact yields_new (yields_evaluateAll_cons hkeys yields_evaluateAll_nil)
    (Yields.bind helements (yields_allocate _))

/-! ## Visits -/

theorem yields_visitNode_null : Yields prog (visitNode prog this .null) s .null s :=
  Yields.result _ s

/-- The class of an object has the method, and what the method gives back is replaced. -/
theorem yields_visitNode {address : Nat} {c : ClassModel} {v : Value}
    (hc : s.heap.class? prog.registry (.ref address) = some c)
    (h : Yields prog (invoke this (visitClassMethod c) [.ref address]) s v t) :
    Yields prog (visitNode prog this (.ref address)) s (prog.substitute c.name t.heap v).2
      (t.grow (prog.substitute c.name t.heap v).1) := by
  refine Yields.bind (Yields.state s) ?_
  rw [hc]
  exact Yields.bind h (Yields.bind (Yields.state t)
    (Yields.bind (Yields.update _ t) (Yields.result _ _)))

theorem yields_visitNullChecked {e : Expr} {v w : Value} (he : Evaluates prog this s e v)
    (h : Yields prog (visitNode prog this v) s w t) :
    Yields prog (evaluate this (.call (.ident visitNullChecked) [e])) s w t := by
  refine yields_evaluate ?_
  show Yields prog (call prog this (.visitNullChecked e)) s w t
  exact Yields.bind he h

end

/-! ## Tests for `null` -/

/-- Whether a value is `null`. -/
def Value.isNull : Value → Bool
  | .null => true
  | _ => false

/-- Whether a value is of a type that generated code tests for `null`. -/
def Value.isTestable : Value → Bool
  | .null | .leaf _ | .ref _ => true
  | _ => false

section

variable {prog : Program} {this v : Value} {s : State} {c : ClassModel}

theorem yields_equalsTyped_null :
    Yields prog (invoke this (equalsTyped c) [.null]) s (.bool false) s := by
  let t : State := { s with locals := [("other", .null)] }
  have hother : Evaluates prog this t (.ident "other") .null := .localOf rfl
  have hnull : Evaluates prog this t (referenceEquals (.ident "other") .null) (.bool true) :=
    .referenceEquals hother .null (yields_sameReference_self rfl)
  have hleave : Yields prog (execute this (.ifThen (referenceEquals (.ident "other") .null)
      [returnFalse])) t (.returned (.bool false)) t :=
    yields_leaveIf hnull
  exact yields_invoke rfl (.returned hleave _) rfl

/-- `==` of a class and `null`. -/
theorem yields_operatorEqual_null {address : Nat}
    (hc : s.heap.class? prog.registry (.ref address) = some c) :
    Yields prog (invoke .null (operatorEqual c) [.ref address, .null]) s (.bool false) s := by
  obtain ⟨_, _, ho, -⟩ := Heap.exists_of_class? hc
  let t : State := { s with locals := [("left", .ref address), ("right", .null)] }
  have hleft : Evaluates prog .null t (.ident "left") (.ref address) := .localOf rfl
  have hright : Evaluates prog .null t (.ident "right") .null := .localOf rfl
  have hnull : Evaluates prog .null t (referenceEquals (.ident "left") .null) (.bool false) :=
    .referenceEquals hleft .null (yields_sameReference_of_ne rfl rfl nofun)
  have hret := yields_ret (yields_equalsOf hleft hright
    (yields_callMethod (show t.heap.object? address = _ from ho) hc rfl yields_equalsTyped_null))
  exact yields_invoke rfl
    (.next (yields_ifThen hnull (fun h => absurd h Bool.false_ne_true) fun _ => rfl)
      (.single hret)) rfl

theorem yields_equalOperator_null (hv : v.isTestable = true) :
    Yields prog (equalOperator prog v .null) s (.bool v.isNull) s := by
  cases v with
  | null => exact yields_equalOperator_values rfl rfl (Yields.result true s)
  | leaf a => exact yields_equalOperator_values rfl rfl (Yields.result false s)
  | ref address =>
    cases hc : s.heap.class? prog.registry (.ref address) with
    | none => exact yields_equalOperator_values hc rfl (Yields.result false s)
    | some c =>
      refine yields_equalOperator ?_ (yields_operatorEqual_null hc)
      rw [hc]
      rfl
  | _ => cases hv

theorem yields_notEqualOperator_null (hv : v.isTestable = true) :
    Yields prog (notEqualOperator prog v .null) s (.bool !v.isNull) s := by
  have hvalues (hc : s.heap.class? prog.registry v = none)
      (h : Yields prog (sameValue prog.leafEqual v .null) s v.isNull s) :
      Yields prog (notEqualOperator prog v .null) s (.bool !v.isNull) s := by
    refine Yields.bind (Yields.state s) (Yields.bind (Yields.state s) ?_)
    rw [hc, show s.heap.class? prog.registry .null = none from rfl]
    exact Yields.bind h (Yields.result _ s)
  cases v with
  | null => exact hvalues rfl (Yields.result true s)
  | leaf a => exact hvalues rfl (Yields.result false s)
  | ref address =>
    cases hc : s.heap.class? prog.registry (.ref address) with
    | none => exact hvalues hc (Yields.result false s)
    | some c =>
      -- `!=` of a class is the negation of its `==`
      let t : State := { s with locals := [("left", .ref address), ("right", .null)] }
      have hleft : Evaluates prog .null t (.ident "left") (.ref address) := .localOf rfl
      have hright : Evaluates prog .null t (.ident "right") .null := .localOf rfl
      have hequal : Evaluates prog .null t ((Expr.ident "left").equalTo (.ident "right"))
          (.bool false) := .equalOperator hleft hright (yields_equalOperator_null rfl)
      refine Yields.bind (Yields.state s) (Yields.bind (Yields.state s) ?_)
      rw [hc]
      exact yields_invoke rfl (.single (yields_ret (.not hequal))) rfl
  | _ => cases hv

theorem Evaluates.isNull {e : Expr} (he : Evaluates prog this s e v) (hv : v.isTestable = true) :
    Evaluates prog this s e.isNull (.bool v.isNull) :=
  .equalOperator he .null (yields_equalOperator_null hv)

theorem Evaluates.isNotNull {e : Expr} (he : Evaluates prog this s e v)
    (hv : v.isTestable = true) : Evaluates prog this s e.isNotNull (.bool !v.isNull) := by
  refine yields_evaluate ?_
  exact Yields.bind he (Yields.bind Evaluates.null (yields_notEqualOperator_null hv))

/-- What is guarded by a test for `null` runs exactly if the value is not `null`. -/
theorem executes_unlessNull {e : Expr} {yes : List Stmt} {t : State}
    (he : Evaluates prog this s e v) (hv : v.isTestable = true) (hnull : v.isNull = true → t = s)
    (h : v.isNull = false → Yields prog (block this [] yes) s .next t) :
    Executes prog this s [.ifThen e.isNotNull yes] .next t := by
  refine .single (yields_ifElse (he.isNotNull hv) ?_)
  cases hb : v.isNull with
  | true =>
    rw [hnull hb]
    exact yields_emptyBlock
  | false => exact h hb

end

end Classwright.Machine
