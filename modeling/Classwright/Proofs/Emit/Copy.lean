import Mathlib.Data.List.Induction
import Classwright.Proofs.Emit.Names
import Classwright.Proofs.Machine.Owned

/-!
# Generated copies are copies of instances

The copy constructor of a class, run on a heap, makes new objects that stand for what the evaluator
says is the copy. The copy shares nothing with what it is made from, and nothing within itself.

## The architecture

* **`Sink`** — where a copy goes: into a property, to the end of a list, or under a key. Each of them
  writes to one object.
* **`CopyRefines`** — what is to be shown of a value that stands for a tree: the evaluator copies the
  tree, and the statements hand a value to the sink that owns that copy (`Row`), in new objects.
* **`Filled`** — a new object on its way. Lists, dictionaries and instances are all filled one part
  after another, and **`Filled.add`** is the step that they share.
* **`copyRefines_scalar`**, **`copyRefines_list`**, **`copyRefines_map`**, **`copyRefines_object`** — one
  result for each kind of value.
* **`Denotes.copyRefines`** — the induction over what a value stands for.
-/

namespace Classwright

namespace Machine

open Code Emit

variable {prog : Program} {base : Heap}

/-! ## Where copies go -/

/-- The local in which a container is copied. -/
def copyLocals : Shape → Nat → List String
  | .array _, level | .map _, level => [numbered "destination" level]
  | _, _ => []

theorem eq_of_mem_copyLocals {shape : Shape} {level : Nat} {name : String}
    (h : name ∈ copyLocals shape level) : name = numbered "destination" level := by
  cases shape with
  | scalar p => cases h
  | ofClass name => cases h
  | array element => exact List.mem_singleton.1 h
  | map element => exact List.mem_singleton.1 h

theorem numbered_not_mem_copyLocals (base : String) (shape : Shape) (level : Nat) :
    numbered base level ∉ copyLocals shape (level + 1) :=
  fun h => absurd (numbered_inj.1 (eq_of_mem_copyLocals h)).2 (by omega)

/-- Handing a value to a sink puts it into the object at an address. The sink is used in states that
have more locals, of the given names, and more objects. -/
def Sink (prog : Program) (this : Value) (s : State) (names : List String) (sink : Expr → Stmt)
    (target : Nat) (put : Value → Object) : Prop :=
  ∀ t u e v, Changed names (fun _ => False) s t → Changed names (fun _ => False) s u →
    Yields prog (evaluate this e) t v u →
    Yields prog (execute this (sink e)) t .next (u.write target (put v))

/-- Whether a value is handed to the sink. -/
def handsOn (keepNull : Bool) (shape : Shape) (v : Value) : Bool :=
  match shape with
  | .scalar _ => true
  | _ => keepNull || !v.isNull

theorem handsOn_null (keepNull : Bool) {shape : Shape} (h : shape.kind ≠ .scalar) :
    handsOn keepNull shape .null = keepNull := by
  cases shape with
  | scalar p => exact absurd rfl h
  | _ => exact Bool.or_false keepNull

theorem eq_null_of_handsOn {keepNull : Bool} {shape : Shape} {v : Value}
    (h : handsOn keepNull shape v = false) : v = .null ∧ shape.kind ≠ .scalar := by
  have hnull (hv : (keepNull || !v.isNull) = false) : v = .null := by
    cases v with
    | null => rfl
    | _ => cases keepNull <;> cases hv
  cases shape with
  | scalar p => cases h
  | _ => exact ⟨hnull h, by simp [Shape.kind]⟩

theorem handsOn_true (shape : Shape) (v : Value) : handsOn true shape v = true := by
  cases shape <;> rfl

theorem handsOn_of_not_null {v : Value} (h : v.isNull = false) (keepNull : Bool) (shape : Shape) :
    handsOn keepNull shape v = true := by
  cases shape <;> simp [handsOn, h]

/-- The evaluator copies a tree, and the statements for a value that stands for it hand on a copy. -/
structure CopyRefines (prog : Program) (base : Heap) (shape : Shape) (v : Value) (a : Json) :
    Prop where
  copies : prog.registry.Copies a shape
  null (h : v = .null) : a = .null
  executes {this : Value} {s : State} {source : Expr} {level : Nat} (keepNull : Bool)
    {sink : Expr → Stmt} {target : Nat} {put : Value → Object} (hbase : base <+: s.heap)
    (hv : Stable prog this s (copyLocals shape level) (fun _ => False) source v)
    (hsink : Sink prog this s (copyLocals shape level) sink target put) :
    ∃ ext w cells, Row prog.registry .exact s.heap.length (s.heap ++ ext)
        [⟨shape, w, prog.registry.copyOf a shape, cells⟩] ∧
      Executes prog this s (copyStatements source shape level keepNull sink) .next
        (if handsOn keepNull shape v then (s.grow ext).write target (put w) else s)

/-- New objects do not count as changes. -/
theorem Changed.of_extends {s : State} {heap : Heap} (h : s.heap <+: heap) (names : List String)
    (cells : Nat → Prop) : Changed names cells s { s with heap } where
  locals _ _ := rfl
  objects address ha _ := by
    obtain ⟨ext, rfl⟩ := h
    exact List.getElem?_append_left ha
  grown := h.length_le

/-! ## Tests for `null` -/

/-- Statements for a value that may be `null`. -/
def guardedCopy (source : Expr) (keepNull : Bool) (sink : Expr → Stmt) (copied : List Stmt) :
    List Stmt :=
  if keepNull then [.ifElse source.isNull [sink .null] copied]
  else [.ifThen source.isNotNull copied]

section

variable {this : Value} {s t : State} {source : Expr} {keepNull : Bool} {sink : Expr → Stmt}
  {copied : List Stmt}

theorem executes_guardedCopy_null {names : List String} {target : Nat} {put : Value → Object}
    (hv : Evaluates prog this s source .null) (hsink : Sink prog this s names sink target put) :
    Executes prog this s (guardedCopy source keepNull sink copied) .next
      (if keepNull then s.write target (put .null) else s) := by
  have hsame := Changed.refl names (fun _ => False) s
  unfold guardedCopy
  cases keepNull with
  | true =>
    have hnull : Executes prog this s [sink .null] .next (s.write target (put .null)) :=
      .single (hsink s s .null .null hsame hsame Evaluates.null)
    exact .single (yields_ifElse (hv.isNull rfl) (yields_blockTo [] hnull rfl))
  | false => exact executes_unlessNull hv rfl (fun _ => rfl) fun h => absurd h nofun

theorem executes_guardedCopy {v : Value} (hv : Evaluates prog this s source v)
    (htest : v.isTestable = true) (hnull : v.isNull = false)
    (h : Yields prog (block this [] copied) s .next t) :
    Executes prog this s (guardedCopy source keepNull sink copied) .next t := by
  unfold guardedCopy
  cases keepNull with
  | true =>
    refine .single (yields_ifElse (hv.isNull htest) ?_)
    rw [hnull]
    exact h
  | false => exact executes_unlessNull hv htest (fun h => absurd (h.symm.trans hnull) nofun) fun _ => h

end

theorem copyRefines_null {shape : Shape} (h : shape.isReferenceType = true) :
    CopyRefines prog base shape .null .null := by
  have hcopy := prog.registry.copyValue_null shape
  refine ⟨Registry.copies_of_eq hcopy, fun _ => rfl, fun {this s source level} keepNull
    {sink target put} hbase hv hsink => ?_⟩
  refine ⟨[], .null, [], .leaf ?_ rfl, ?_⟩
  · rw [Registry.copyOf_eq hcopy]
    exact .null h
  · rw [State.grow_nil]
    have hguard (copied : List Stmt) :
        Executes prog this s (guardedCopy source keepNull sink copied) .next
          (if keepNull then s.write target (put .null) else s) :=
      executes_guardedCopy_null hv.evaluates hsink
    cases shape with
    | scalar p =>
      have hsame := Changed.refl (copyLocals (.scalar p) level) (fun _ => False) s
      exact .single (hsink s s source .null hsame hsame hv.evaluates)
    | ofClass name =>
      rw [handsOn_null _ (by simp [Shape.kind])]
      exact hguard _
    | array element =>
      rw [handsOn_null _ (by simp [Shape.kind])]
      exact hguard _
    | map element =>
      rw [handsOn_null _ (by simp [Shape.kind])]
      exact hguard _

theorem copyRefines_scalar {p : Primitive} {a : Json} (ha : p.accepts a = true) :
    CopyRefines prog base (.scalar p) (.leaf a) a := by
  have hcopy : prog.registry.copyValue a (.scalar p) = .ok a :=
    prog.registry.copyValue_of_not_opens rfl
  refine ⟨Registry.copies_of_eq hcopy, nofun, fun {this s source level} keepNull {sink target put}
    hbase hv hsink => ?_⟩
  have hsame := Changed.refl (copyLocals (.scalar p) level) (fun _ => False) s
  refine ⟨[], .leaf a, [], .leaf ?_ rfl, ?_⟩
  · rw [Registry.copyOf_eq hcopy]
    exact .scalar ha
  · rw [State.grow_nil]
    exact .single (hsink s s source (.leaf a) hsame hsame hv.evaluates)

/-! ## New objects, part by part -/

section

variable {α : Type} {shape : α → Shape} {tree : α → Json} {hold : List (α × Value) → Object}
  {old heap : Heap} {parts : List (α × Part)}

/-- A new object on its way: it lies behind what was there before and holds copies of what `parts` are
for, which share nothing. -/
structure Filled (prog : Program) (shape : α → Shape) (tree : α → Json)
    (hold : List (α × Value) → Object) (old heap : Heap) (parts : List (α × Part)) : Prop where
  before : old <+: heap
  object : heap.object? old.length = some (hold (held parts))
  shapes : ∀ q ∈ parts, q.2.shape = shape q.1
  trees : ∀ q ∈ parts, q.2.tree = prog.registry.copyOf (tree q.1) (shape q.1)
  row : Row prog.registry .exact (old.length + 1) heap (parts.map Prod.snd)

namespace Filled

/-- An object starts with nothing. -/
theorem start : Filled prog shape tree hold old (old ++ [⟨hold [], 0⟩]) [] where
  before := List.prefix_append _ _
  object := Heap.object?_append_singleton _ _
  shapes _ hq := absurd hq List.not_mem_nil
  trees _ hq := absurd hq List.not_mem_nil
  row := .nil

theorem lt (h : Filled prog shape tree hold old heap parts) : old.length < heap.length :=
  Heap.lt_of_object? h.object

theorem snoc {heap' : Heap} {x : α} {q : Part} (h : Filled prog shape tree hold old heap parts)
    (hbefore : old <+: heap')
    (hobject : heap'.object? old.length = some (hold (held parts ++ [(x, q.value)])))
    (hs : q.shape = shape x) (ht : q.tree = prog.registry.copyOf (tree x) (shape x))
    (hrow : Row prog.registry .exact (old.length + 1) heap' (parts.map Prod.snd ++ [q])) :
    Filled prog shape tree hold old heap' (parts ++ [(x, q)]) where
  before := hbefore
  object := by
    rw [hobject, held, held, List.map_append]
    rfl
  shapes := List.forall_mem_append.2 ⟨h.shapes, List.forall_mem_singleton.2 hs⟩
  trees := List.forall_mem_append.2 ⟨h.trees, List.forall_mem_singleton.2 ht⟩
  row := by rwa [List.map_append]

/-- **One more part**: a copy in new objects is written to the object. -/
theorem add {s : State} {ext : Heap} {x : α} {w : Value} {cells : List Nat}
    (h : Filled prog shape tree hold old s.heap parts)
    (hrow : Row prog.registry .exact s.heap.length (s.heap ++ ext)
      [⟨shape x, w, prog.registry.copyOf (tree x) (shape x), cells⟩]) :
    Filled prog shape tree hold old
      ((s.grow ext).write old.length (hold (held parts ++ [(x, w)]))).heap
      (parts ++ [(x, ⟨shape x, w, prog.registry.copyOf (tree x) (shape x), cells⟩)]) := by
  have hgrown : old <+: (s.grow ext).heap := h.before.trans (List.prefix_append _ _)
  have hlt : old.length < (s.grow ext).heap.length :=
    Nat.lt_of_lt_of_le h.lt (List.prefix_append s.heap ext).length_le
  have hobject (address : Nat) := State.object?_write (s.grow ext) hlt
    (hold (held parts ++ [(x, w)])) address
  refine h.snoc (State.prefix_write hgrown (Nat.le_refl _) _) ?_ rfl rfl ?_
  · rw [hobject, if_pos rfl]
  · refine h.row.snoc h.lt hrow (fun address ha => Heap.object?_append_of_lt ha ext)
      fun address ha => ?_
    rw [hobject, if_neg ha]
    rfl

/-- One more part that is `null`, where the object holds that already. -/
theorem addNull {x : α} (h : Filled prog shape tree hold old heap parts)
    (hx : (shape x).isReferenceType = true) (ht : prog.registry.copyOf (tree x) (shape x) = .null)
    (hhold : hold (held parts ++ [(x, .null)]) = hold (held parts)) :
    Filled prog shape tree hold old heap (parts ++ [(x, ⟨shape x, .null, .null, []⟩)]) := by
  refine h.snoc h.before ?_ rfl ht.symm ?_
  · rw [hhold]
    exact h.object
  · have hnull : Row prog.registry .exact heap.length heap [⟨shape x, .null, .null, []⟩] :=
      .leaf (.null hx) rfl
    exact h.row.append hnull h.lt h.row.lt

/-- The object when it is complete. -/
theorem single {shape' : Shape} {tree' : Json} (h : Filled prog shape tree hold old heap parts)
    (hq : Owns prog.registry .exact heap
      ⟨shape', .ref old.length, tree', old.length :: Part.allCells (parts.map Prod.snd)⟩) :
    Row prog.registry .exact old.length heap
      [⟨shape', .ref old.length, tree', old.length :: Part.allCells (parts.map Prod.snd)⟩] := by
  refine (h.row.mono (Nat.le_succ _)).single hq rfl (Nat.le_refl _) fun hmem => ?_
  exact absurd (h.row.above _ hmem) (by omega)

end Filled

end

/-! ## Containers -/

/-- Statements that copy a container which is not `null`. -/
def rebuiltCopy (type : TypeRef) (source : Expr) (level : Nat) (sink : Expr → Stmt)
    (body : List Stmt) : List Stmt :=
  [.var (numbered "destination" level) (.new type []),
    .forEach (numbered "value" level) none source body,
    sink (.ident (numbered "destination" level))]

/-- The state while a container is copied: a local leads to the first new object. -/
def rebuilding (s : State) (level : Nat) (heap : Heap) : State :=
  ({ s with heap } : State).push [(numbered "destination" level, .ref s.heap.length)]

/-- What a loop that copies a container needs: an expression for each element that the local of the
loop stands for, and a sink that adds to the new container. -/
structure Rebuilds {α : Type} (prog : Program) (this : Value) (level : Nat) (element : Shape)
    (l : List α) (f value : α → Value) (hold : List (α × Value) → Object) (item : Expr)
    (sink : Expr → Stmt) : Prop where
  item (t : State) (x : α) (hx : Fields.get? t.locals (numbered "value" level) = some (f x)) :
    Stable prog this t (copyLocals element (level + 1)) (fun _ => False) item (value x)
  sink (t : State) (x : α) (rest : List α) (done : List (α × Value)) (n : Nat)
    (hl : done.map Prod.fst ++ x :: rest = l)
    (hx : Fields.get? t.locals (numbered "value" level) = some (f x))
    (hn : Fields.get? t.locals (numbered "destination" level) = some (.ref n))
    (ho : t.heap.object? n = some (hold done)) :
    Sink prog this t (copyLocals element (level + 1)) sink n fun w => hold (done ++ [(x, w)])

section

variable {α : Type} {this : Value} {s : State} {level : Nat} {element : Shape} {l : List α}
  {f value : α → Value} {tree : α → Json} {hold : List (α × Value) → Object} {item source : Expr}
  {put : Expr → Stmt}

/-- One turn of the loop. -/
theorem yields_copyItem {x : α} {rest : List α} {heap : Heap} {parts : List (α × Part)}
    (h : Rebuilds prog this level element l f value hold item put) (hbase : base <+: s.heap)
    (hx : CopyRefines prog base element (value x) (tree x))
    (hl : parts.map Prod.fst ++ x :: rest = l)
    (hfilled : Filled prog (fun _ => element) tree hold s.heap heap parts) :
    ∃ heap' q, Filled prog (fun _ => element) tree hold s.heap heap' (parts ++ [(x, q)]) ∧
      Yields prog (block this [(numbered "value" level, f x)]
        (copyStatements item element (level + 1) true put)) (rebuilding s level heap) .next
        (rebuilding s level heap') := by
  let t := (rebuilding s level heap).push [(numbered "value" level, f x)]
  have hne : numbered "destination" level ≠ numbered "value" level :=
    fun he => absurd (numbered_inj.1 he).1 (by decide)
  have hvalue : Fields.get? t.locals (numbered "value" level) = some (f x) := by
    rw [State.get?_push_cons, if_pos rfl]
  have hdestination : Fields.get? t.locals (numbered "destination" level) =
      some (.ref s.heap.length) := by
    rw [State.get?_push_cons, if_neg hne, State.get?_push_nil, rebuilding, State.get?_push_cons,
      if_pos rfl]
  have hdone : (held parts).map Prod.fst ++ x :: rest = l := by
    rw [held, List.map_map]
    exact hl
  obtain ⟨ext, w, cells, hrow, hrun⟩ := hx.executes (s := t) true (hbase.trans hfilled.before)
    (h.item t x hvalue) (h.sink t x rest (held parts) _ hdone hvalue hdestination hfilled.object)
  rw [handsOn_true, if_pos rfl] at hrun
  exact ⟨_, _, hfilled.add (s := { s with heap }) hrow,
    yields_blockTo [(numbered "value" level, f x)] hrun rfl⟩

/-- **A loop copies all elements of a container.** -/
theorem yields_copyItems {address : Nat} {cell : Cell}
    (h : Rebuilds prog this level element l f value hold item put) (hbase : base <+: s.heap)
    (ih : ∀ x ∈ l, CopyRefines prog base element (value x) (tree x))
    (hcell : s.heap[address]? = some cell) :
    ∃ heap parts, parts.map Prod.fst = l ∧
      Filled prog (fun _ => element) tree hold s.heap heap parts ∧
      Yields prog (each this (numbered "value" level)
        (copyStatements item element (level + 1) true put) (.ref address) cell.writes (l.map f))
        (rebuilding s level (s.heap ++ [⟨hold [], 0⟩])) .next (rebuilding s level heap) := by
  let I (rest : List α) (t : State) : Prop :=
    ∃ heap parts, t = rebuilding s level heap ∧ parts.map Prod.fst ++ rest = l ∧
      Filled prog (fun _ => element) tree hold s.heap heap parts
  have hwrites (rest) (t) (ht : I rest t) :
      Yields prog (writes (.ref address)) t cell.writes t := by
    obtain ⟨heap, parts, rfl, -, hfilled⟩ := ht
    refine yields_writesOf ?_
    have hsame := Changed.of_extends hfilled.before [] fun _ => False
    exact (hsame.objects address (List.getElem?_eq_some_iff.1 hcell).1 not_false).trans hcell
  have hstep (x) (rest) (t) (hx : x ∈ l) (ht : I (x :: rest) t) :
      ∃ u, Yields prog (block this [(numbered "value" level, f x)]
        (copyStatements item element (level + 1) true put)) t .next u ∧ I rest u := by
    obtain ⟨heap, parts, rfl, hl, hfilled⟩ := ht
    obtain ⟨heap', q, hfilled', hrun⟩ := yields_copyItem h hbase (ih x hx) hl hfilled
    refine ⟨_, hrun, heap', _, rfl, ?_, hfilled'⟩
    rw [List.map_append, List.append_assoc]
    exact hl
  obtain ⟨t, hloop, heap, parts, rfl, hl, hfilled⟩ := each_invariant hwrites hstep
    ⟨_, [], rfl, rfl, Filled.start⟩
  rw [List.append_nil] at hl
  exact ⟨heap, parts, hl, hfilled, hloop⟩

/-- **A container is copied and handed on.** -/
theorem yields_rebuiltCopy {address target : Nat} {cell : Cell} {type : TypeRef}
    {sink : Expr → Stmt} {store : Value → Object}
    (h : Rebuilds prog this level element l f value hold item put) (hbase : base <+: s.heap)
    (ih : ∀ x ∈ l, CopyRefines prog base element (value x) (tree x))
    (hcell : s.heap[address]? = some cell)
    (hnew : ∀ t, Yields prog (construct prog type []) t (.ref t.heap.length)
      (t.grow [⟨hold [], 0⟩]))
    (helements : ∀ t : State, t.heap[address]? = some cell →
      Yields prog (elements (.ref address)) t (l.map f) t)
    (hsource : Stable prog this s [numbered "destination" level] (fun _ => False) source
      (.ref address))
    (hsink : Sink prog this s [numbered "destination" level] sink target store) :
    ∃ ext parts, parts.map Prod.fst = l ∧
      Filled prog (fun _ => element) tree hold s.heap (s.heap ++ ext) parts ∧
      Yields prog (block this [] (rebuiltCopy type source level sink
        (copyStatements item element (level + 1) true put))) s .next
        ((s.grow ext).write target (store (.ref s.heap.length))) := by
  obtain ⟨heap, parts, hl, hfilled, hloop⟩ := yields_copyItems h hbase ih hcell
  obtain ⟨ext, rfl⟩ := hfilled.before
  -- the local of the container is the only one in the way
  have hchanged (ext : Heap) : Changed [numbered "destination" level] (fun _ => False) s
      (rebuilding s level (s.heap ++ ext)) :=
    (Changed.of_extends (List.prefix_append _ _) _ _).push (List.Subset.refl _)
  have hstart := (hchanged [⟨hold [], 0⟩]).objects address
    (List.getElem?_eq_some_iff.1 hcell).1 not_false
  have hdestination : Evaluates prog this (rebuilding s level (s.heap ++ ext))
      (.ident (numbered "destination" level)) (.ref s.heap.length) := by
    apply Evaluates.localOf
    rw [rebuilding, State.get?_push_cons, if_pos rfl]
  refine ⟨ext, parts, hl, hfilled, ?_⟩
  refine yields_blockTo [(numbered "destination" level, .ref s.heap.length)] ?_ rfl
  refine .next (yields_declare (yields_new yields_evaluateAll_nil (hnew s))) (.next
    (yields_forEachTo (hsource _ (hchanged _)) (yields_writesOf (hstart.trans hcell))
      (helements _ (hstart.trans hcell)) hloop) (.single ?_))
  exact hsink _ _ _ _ (hchanged ext) (hchanged ext) hdestination

end

/-- What locals of outer levels hold while an element is copied. -/
theorem Changed.get?_numbered {s t : State} {base : String} {shape : Shape} {level : Nat} {v : Value}
    (h : Changed (copyLocals shape (level + 1)) (fun _ => False) s t)
    (hv : Fields.get? s.locals (numbered base level) = some v) :
    Fields.get? t.locals (numbered base level) = some v := by
  rw [h.locals _ (numbered_not_mem_copyLocals base shape level), hv]

/-- A loop over a list adds the copies to the end of another one. -/
theorem rebuilds_list {this : Value} (level : Nat) (element : Shape) (items : List (Value × Json)) :
    Rebuilds prog this level element items Prod.fst Prod.fst
      (fun done => .list (done.map Prod.snd)) (.ident (numbered "value" level))
      fun e => .expr (.call (.member (.ident (numbered "destination" level)) "Add") [e]) where
  item t x hx := .localOf hx (numbered_not_mem_copyLocals _ _ _)
  sink t x rest done n hl hx hn ho := by
    intro u u' e w hu hu' he
    have hadd := yields_addItem (.localOf (hu.get?_numbered hn)) he (hu'.object? ho not_false)
    dsimp only
    rw [List.map_append]
    exact hadd

/-- A loop over a dictionary puts the copies into another one, under the same keys. -/
theorem rebuilds_map {this : Value} (level : Nat) (element : Shape)
    {entries : Fields (Value × Json)} (hk : entries.keys.Nodup) :
    Rebuilds prog this level element entries (fun e => .entry e.1 e.2.1) (fun e => e.2.1)
      (fun done => .dictionary (done.map fun e => (e.1.1, e.2)))
      (.member (.ident (numbered "value" level)) "Value") fun e =>
        .assign (.index (.ident (numbered "destination" level))
          (.member (.ident (numbered "value" level)) "Key")) e where
  item t x hx := .entryValue (.localOf hx (numbered_not_mem_copyLocals _ _ _))
  sink t x rest done n hl hx hn ho := by
    intro u u' e w hu hu' he
    have hentry : Evaluates prog this u (.ident (numbered "value" level)) (.entry x.1 x.2.1) :=
      .localOf (hu.get?_numbered hx)
    have hkey : Evaluates prog this u (.member (.ident (numbered "value" level)) "Key")
        (.leaf (.text x.1)) := .member hentry (Yields.result _ u)
    have hput := yields_assignIndex (.localOf (hu.get?_numbered hn)) hkey he
      (yields_writeEntry (hu'.object? ho not_false) x.1 w)
    -- no key comes twice, so the entry goes to the end
    have hfresh : x.1 ∉ Fields.keys (done.map fun e => (e.1.1, e.2)) := by
      rw [← hl, Fields.keys, List.map_append, List.map_cons, List.nodup_append] at hk
      intro hmem
      rw [Fields.keys, List.map_map] at hmem
      refine hk.2.2 x.1 ?_ x.1 List.mem_cons_self rfl
      rwa [List.map_map]
    rw [Fields.insert_of_not_mem hfresh] at hput
    dsimp only
    rw [List.map_append]
    exact hput

theorem Heap.getElem?_of_extends {heap : Heap} {address : Nat} {cell : Cell} (h : base <+: heap)
    (hc : base[address]? = some cell) : heap[address]? = some cell := by
  obtain ⟨ext, rfl⟩ := h
  rw [List.getElem?_append_left (List.getElem?_eq_some_iff.1 hc).1, hc]

/-- **Lists.** -/
theorem copyRefines_list {element : Shape} {address : Nat} {items : List (Value × Json)}
    (ho : base.object? address = some (.list (items.map Prod.fst)))
    (ih : ∀ q ∈ items, CopyRefines prog base element q.1 q.2) :
    CopyRefines prog base (.array element) (.ref address) (.list (items.map Prod.snd)) := by
  have hcopy : prog.registry.copyValue (.list (items.map Prod.snd)) (.array element) =
      .ok (.list ((items.map Prod.snd).map fun v => prog.registry.copyOf v element)) := by
    refine prog.registry.copyValue_array.2 ⟨fun v hv => ?_, rfl⟩
    obtain ⟨q, hq, rfl⟩ := List.mem_map.1 hv
    exact (ih q hq).copies
  obtain ⟨cell, hcell, hobject⟩ := Heap.exists_cell ho
  refine ⟨Registry.copies_of_eq hcopy, nofun, fun {this s source level} keepNull {sink target put}
    hbase hv hsink => ?_⟩
  have helements (t : State) (ht : t.heap[address]? = some cell) :
      Yields prog (elements (.ref address)) t (items.map Prod.fst) t := by
    refine yields_listElements ?_
    rw [Heap.object?, ht, Option.map_some, hobject]
  have hnew (t : State) : Yields prog (construct prog (concreteType (.array element)) []) t
      (.ref t.heap.length) (t.grow [⟨.list [], 0⟩]) := yields_allocate _
  obtain ⟨ext, parts, hparts, hfilled, hrun⟩ := yields_rebuiltCopy (rebuilds_list level element items)
    hbase ih (Heap.getElem?_of_extends hbase hcell) hnew helements hv hsink
  refine ⟨ext, .ref s.heap.length, s.heap.length :: Part.allCells (parts.map Prod.snd), ?_, ?_⟩
  · have htrees : (items.map Prod.snd).map (fun v => prog.registry.copyOf v element) =
        (parts.map Prod.snd).map Part.tree := by
      rw [← hparts, List.map_map, List.map_map, List.map_map]
      exact List.map_congr_left fun q hq => (hfilled.trees q hq).symm
    rw [Registry.copyOf_eq hcopy, htrees]
    refine hfilled.single (.list (parts.map Prod.snd) ?_ (fun q hq => ?_) hfilled.row.owns)
    · rw [hfilled.object, held, List.map_map, List.map_map]
      rfl
    · obtain ⟨e, he, rfl⟩ := List.mem_map.1 hq
      exact hfilled.shapes e he
  · rw [handsOn_of_not_null rfl, if_pos rfl]
    exact executes_guardedCopy hv.evaluates rfl rfl hrun

/-- **Maps.** -/
theorem copyRefines_map {element : Shape} {address : Nat} {entries : Fields (Value × Json)}
    (hk : entries.keys.Nodup)
    (ho : base.object? address = some (.dictionary (entries.mapValues Prod.fst)))
    (ih : ∀ e ∈ entries, CopyRefines prog base element e.2.1 e.2.2) :
    CopyRefines prog base (.map element) (.ref address) (.object (entries.mapValues Prod.snd)) := by
  have hcopy : prog.registry.copyValue (.object (entries.mapValues Prod.snd)) (.map element) =
      .ok (.object (Fields.mapValues (fun v => prog.registry.copyOf v element)
        (entries.mapValues Prod.snd))) := by
    refine prog.registry.copyValue_map.2 ⟨fun f hf => ?_, rfl⟩
    obtain ⟨e, he, rfl⟩ := List.mem_map.1 hf
    exact (ih e he).copies
  obtain ⟨cell, hcell, hobject⟩ := Heap.exists_cell ho
  refine ⟨Registry.copies_of_eq hcopy, nofun, fun {this s source level} keepNull {sink target put}
    hbase hv hsink => ?_⟩
  have helements (t : State) (ht : t.heap[address]? = some cell) :
      Yields prog (elements (.ref address)) t (entries.map fun e => .entry e.1 e.2.1) t := by
    have hlist : (entries.mapValues Prod.fst).map (fun f => Value.entry f.1 f.2) =
        entries.map fun e => .entry e.1 e.2.1 := by
      rw [Fields.mapValues, List.map_map]
      rfl
    rw [← hlist]
    refine yields_elements ?_
    rw [Heap.object?, ht, Option.map_some, hobject]
  have hnew (t : State) : Yields prog (construct prog (concreteType (.map element)) []) t
      (.ref t.heap.length) (t.grow [⟨.dictionary [], 0⟩]) := yields_allocate _
  obtain ⟨ext, parts, hparts, hfilled, hrun⟩ := yields_rebuiltCopy (rebuilds_map level element hk)
    hbase ih (Heap.getElem?_of_extends hbase hcell) hnew helements hv hsink
  -- the parts under their keys
  let copied : Fields Part := parts.map fun q => (q.1.1, q.2)
  have hrow : copied.map Prod.snd = parts.map Prod.snd := by
    rw [List.map_map]
    rfl
  refine ⟨ext, .ref s.heap.length, s.heap.length :: Part.allCells (parts.map Prod.snd), ?_, ?_⟩
  · have htrees : Fields.mapValues (fun v => prog.registry.copyOf v element)
        (entries.mapValues Prod.snd) = copied.mapValues Part.tree := by
      rw [← hparts]
      simp only [Fields.mapValues, List.map_map, copied]
      exact List.map_congr_left fun q hq => Prod.ext rfl (hfilled.trees q hq).symm
    have hkeys : copied.keys.Nodup := by
      rw [← hparts, Fields.keys, List.map_map] at hk
      rwa [Fields.keys, List.map_map]
    rw [Registry.copyOf_eq hcopy, htrees]
    refine hfilled.single ?_
    rw [← hrow]
    refine .map copied hkeys ?_ (fun q hq => ?_) fun q hq => ?_
    · rw [hfilled.object, held, List.map_map]
      simp only [Fields.mapValues, List.map_map, copied]
      rfl
    · obtain ⟨e, he, rfl⟩ := List.mem_map.1 hq
      exact hfilled.shapes e he
    · exact hfilled.row.owns _ (hrow ▸ List.mem_map.2 ⟨q, hq, rfl⟩)
  · rw [handsOn_of_not_null rfl, if_pos rfl]
    exact executes_guardedCopy hv.evaluates rfl rfl hrun

/-! ## Objects -/

/-- The parameters of `Init` have different names, and a property has none of them. -/
structure ParameterNames (c : ClassModel) : Prop where
  distinct : ((propertyParams c).map Param.name).Nodup
  separate : ∀ p ∈ c.properties, p.name ∉ (propertyParams c).map Param.name

/-- Besides, no array or map has the name of the local in which `Init` copies it. -/
structure CopyNames (c : ClassModel) : Prop extends ParameterNames c where
  locals : ∀ p ∈ c.properties, p.name ∉ copyLocals p.shape 0

theorem names_propertyParams (c : ClassModel) :
    (propertyParams c).map Param.name = (c.properties.map Property.name).map parameterName := by
  rw [propertyParams, List.map_map, List.map_map]
  rfl

theorem ParameterNames.nodup {c : ClassModel} (h : ParameterNames c) :
    (c.properties.map Property.name).Nodup := by
  have hparams := h.distinct
  rw [names_propertyParams] at hparams
  exact hparams.of_map

theorem defaultValue_eq_null {shape : Shape} (h : shape.kind ≠ .scalar) :
    defaultValue shape = .null := by
  cases shape with
  | scalar p => exact absurd rfl h
  | _ => rfl

theorem isReferenceType_of_kind {shape : Shape} (h : shape.kind ≠ .scalar) :
    shape.isReferenceType = true := by
  cases shape with
  | scalar p => exact absurd rfl h
  | _ => rfl

/-- The properties of a new instance after some of them were assigned. -/
def assigned (c : ClassModel) (done : List (Property × Value)) : Fields Value :=
  done.foldl (fun properties e => properties.insert e.1.name e.2)
    (c.properties.map fun p => (p.name, defaultValue p.shape))

theorem assigned_snoc (c : ClassModel) (done : List (Property × Value)) (p : Property) (v : Value) :
    assigned c (done ++ [(p, v)]) = (assigned c done).insert p.name v := by
  rw [assigned, List.foldl_append]
  rfl

theorem get?_assigned_of_not_mem {c : ClassModel} (hn : (c.properties.map Property.name).Nodup)
    {done : List (Property × Value)} {p : Property} (hp : p ∈ c.properties)
    (h : ∀ e ∈ done, e.1.name ≠ p.name) :
    (assigned c done).get? p.name = some (defaultValue p.shape) := by
  induction done using List.reverseRecOn with
  | nil =>
    refine Fields.get?_of_mem ?_ (List.mem_map.2 ⟨p, hp, rfl⟩)
    rw [assigned, List.foldl_nil, Fields.keys, List.map_map]
    exact hn
  | append_singleton done e ih =>
    rw [List.forall_mem_append, List.forall_mem_singleton] at h
    rw [assigned_snoc, Fields.get?_insert, if_neg (Ne.symm h.2), ih h.1]

theorem get?_assigned {c : ClassModel} {done : List (Property × Value)}
    (hn : (done.map fun e => e.1.name).Nodup) {e : Property × Value} (he : e ∈ done) :
    (assigned c done).get? e.1.name = some e.2 := by
  induction done using List.reverseRecOn with
  | nil => cases he
  | append_singleton done last ih =>
    rw [List.map_append, List.nodup_append] at hn
    rw [assigned_snoc, Fields.get?_insert]
    rcases List.mem_append.1 he with he | he
    · have hne : e.1.name ≠ last.1.name :=
        hn.2.2 _ (List.mem_map.2 ⟨e, he, rfl⟩) _ (List.mem_singleton.2 rfl)
      rw [if_neg hne, ih hn.1 he]
    · rw [List.mem_singleton.1 he, if_pos rfl]

theorem nodup_held {c : ClassModel} {parts : List (Property × Part)}
    (hn : (c.properties.map Property.name).Nodup) (hparts : parts.map Prod.fst = c.properties) :
    ((held parts).map fun e => e.1.name).Nodup := by
  rw [← hparts, List.map_map] at hn
  rw [held, List.map_map]
  exact hn

section

variable {c : ClassModel} {name : String} {old : Heap} {value : Property → Value} {a : Json}

/-- Where `Init` puts the copy of a property. -/
theorem sink_property {s : State} {done : List (Property × Value)} {p : Property} (hn : CopyNames c)
    (hp : p ∈ c.properties)
    (hs : s.locals = c.properties.map fun p => (parameterName p.name, value p))
    (ho : s.heap.object? old.length = some (.instanceOf name (assigned c done))) :
    Sink prog (.ref old.length) s (copyLocals p.shape 0) (fun e => .assign (.ident p.name) e)
      old.length fun w => .instanceOf name (assigned c (done ++ [(p, w)])) := by
  intro t u e w _ hu he
  have hlocal : Fields.get? u.locals p.name = none := by
    rw [hu.locals _ (hn.locals p hp), hs]
    refine Fields.get?_eq_none fun hmem => hn.separate p hp ?_
    rw [Fields.keys, List.map_map] at hmem
    rw [propertyParams, List.map_map]
    exact hmem
  have hassign := yields_assignProperty he hlocal (hu.object? ho not_false)
  dsimp only
  rw [assigned_snoc]
  exact hassign

/-- `Init` copies one property after another. -/
theorem executes_initProperties (hn : CopyNames c) (hbase : base <+: old)
    (ih : ∀ p ∈ c.properties, CopyRefines prog base p.shape (value p) (a.part p.jsonName))
    {l : List Property} {s : State} {parts : List (Property × Part)}
    (hl : parts.map Prod.fst ++ l = c.properties)
    (hs : s.locals = c.properties.map fun p => (parameterName p.name, value p))
    (hfilled : Filled prog Property.shape (fun p => a.part p.jsonName)
      (fun done => .instanceOf name (assigned c done)) old s.heap parts) :
    ∃ heap parts, parts.map Prod.fst = c.properties ∧
      Filled prog Property.shape (fun p => a.part p.jsonName)
        (fun done => .instanceOf name (assigned c done)) old heap parts ∧
      Executes prog (.ref old.length) s (l.flatMap fun p =>
        copyStatements (.ident (parameterName p.name)) p.shape 0 false fun e =>
          .assign (.ident p.name) e) .next { s with heap } := by
  induction l generalizing s parts with
  | nil =>
    rw [List.append_nil] at hl
    exact ⟨s.heap, parts, hl, hfilled, .nil⟩
  | cons p l ihl =>
    have hp : p ∈ c.properties := by
      rw [← hl]
      exact List.mem_append_right _ List.mem_cons_self
    have hnext (q : Part) : (parts ++ [(p, q)]).map Prod.fst ++ l = c.properties := by
      rw [List.map_append, List.append_assoc]
      exact hl
    have hparam : Fields.get? s.locals (parameterName p.name) = some (value p) := by
      rw [hs]
      refine Fields.get?_of_mem ?_ (List.mem_map.2 ⟨p, hp, rfl⟩)
      have hdistinct := hn.distinct
      rw [propertyParams, List.map_map] at hdistinct
      rw [Fields.keys, List.map_map]
      exact hdistinct
    -- the name of the parameter has no mark, so the local of the copy does not hide it
    have hsource : Stable prog (.ref old.length) s (copyLocals p.shape 0) (fun _ => False)
        (.ident (parameterName p.name)) (value p) :=
      .localOf hparam fun hmem => parameterName_ne_numbered _ _ _ (eq_of_mem_copyLocals hmem)
    obtain ⟨ext, w, cells, hrow, hrun⟩ := (ih p hp).executes false (hbase.trans hfilled.before)
      hsource (sink_property hn hp hs hfilled.object)
    rw [List.flatMap_cons]
    cases hhands : handsOn false p.shape (value p) with
    | true =>
      rw [hhands, if_pos rfl] at hrun
      obtain ⟨heap, parts', hparts, hfilled', hrest⟩ := ihl
        (s := (s.grow ext).write old.length (.instanceOf name (assigned c (held parts ++ [(p, w)]))))
        (hnext _) hs (hfilled.add hrow)
      exact ⟨heap, parts', hparts, hfilled', hrun.append hrest⟩
    | false =>
      -- nothing is assigned, and `null` is what the property holds from the start
      rw [hhands, if_neg Bool.false_ne_true] at hrun
      obtain ⟨hnull, hkind⟩ := eq_null_of_handsOn hhands
      have htree : prog.registry.copyOf (a.part p.jsonName) p.shape = .null := by
        rw [(ih p hp).null hnull]
        exact Registry.copyOf_eq (prog.registry.copyValue_null _)
      have hhold : assigned c (held parts ++ [(p, .null)]) = assigned c (held parts) := by
        rw [assigned_snoc]
        refine Fields.insert_self ?_
        rw [get?_assigned_of_not_mem hn.nodup hp, defaultValue_eq_null hkind]
        intro e he
        obtain ⟨q, hq, rfl⟩ := List.mem_map.1 he
        have hnames := hn.nodup
        rw [← hl, List.map_append, List.nodup_append] at hnames
        exact hnames.2.2 _ (List.mem_map.2 ⟨q.1, List.mem_map.2 ⟨q, hq, rfl⟩, rfl⟩) _
          List.mem_cons_self
      obtain ⟨heap, parts', hparts, hfilled', hrest⟩ := ihl (hnext _) hs
        (hfilled.addNull (isReferenceType_of_kind hkind) htree (congrArg (Object.instanceOf name) hhold))
      exact ⟨heap, parts', hparts, hfilled', hrun.append hrest⟩

/-- `Init` of a new object. -/
theorem yields_init {s : State} (hn : CopyNames c) (hbase : base <+: old)
    (ih : ∀ p ∈ c.properties, CopyRefines prog base p.shape (value p) (a.part p.jsonName))
    (hs : s.heap = old ++ [⟨.instanceOf name (assigned c []), 0⟩]) :
    ∃ heap parts, parts.map Prod.fst = c.properties ∧
      Filled prog Property.shape (fun p => a.part p.jsonName)
        (fun done => .instanceOf name (assigned c done)) old heap parts ∧
      Yields prog (invoke (.ref old.length) (initMethod c) (c.properties.map value)) s .null
        { s with heap } := by
  let t : State := ⟨s.heap, c.properties.map fun p => (parameterName p.name, value p)⟩
  have hstart : Filled prog Property.shape (fun p => a.part p.jsonName)
      (fun done => .instanceOf name (assigned c done)) old t.heap [] := by
    show Filled prog _ _ _ old s.heap []
    rw [hs]
    exact Filled.start
  obtain ⟨heap, parts, hparts, hfilled, hrun⟩ := executes_initProperties hn hbase ih
    (List.nil_append _) rfl hstart
  refine ⟨heap, parts, hparts, hfilled, ?_⟩
  have hlocals : ((initMethod c).params.map Param.name).zip (c.properties.map value) = t.locals := by
    rw [show (initMethod c).params = propertyParams c from rfl, propertyParams, List.map_map,
      List.zip_map']
    rfl
  have hbody : (initMethod c).body = some (c.properties.flatMap fun p =>
      copyStatements (.ident (parameterName p.name)) p.shape 0 false fun e =>
        .assign (.ident p.name) e) := rfl
  refine yields_invokeTo hbody (t := { t with heap }) ?_ (Or.inr ⟨rfl, rfl⟩)
  rw [hlocals]
  exact hrun

/-- A call of `Init` on an object of a class. -/
theorem yields_initCall {this : Nat} {properties : Fields Value} {arguments : List Expr}
    {values : List Value} {s : State} {heap : Heap} (hc : prog.registry.get? name = some c)
    (ho : s.heap.object? this = some (.instanceOf name properties))
    (hvalues : Yields prog (evaluateAll (.ref this) arguments) s values s)
    (hinit : Yields prog (invoke (.ref this) (initMethod c) values) s .null { s with heap }) :
    Yields prog (execute (.ref this) (initCall arguments)) s .next { s with heap } := by
  have hcall : Yields prog (callMethod prog (.ref this) "Init" values) s .null { s with heap } :=
    yields_callMethod (s := s) ho ((Heap.class?_of_object? ho).trans hc) rfl hinit
  refine yields_execute (Yields.bind (yields_evaluate (v := .null) ?_) (Yields.result _ _))
  show Yields prog (call prog (.ref this) (Call.of (.ident "Init") arguments)) s _ _
  rw [show Call.of (.ident "Init") arguments = .own "Init" arguments by simp [Call.of]]
  exact Yields.bind hvalues hcall

/-- The constructor hands the properties of the other object to `Init`. -/
theorem yields_copyConstructor {this address : Nat} {properties properties' : Fields Value}
    {s : State} {heap : Heap} (hc : prog.registry.get? name = some c)
    (ho : s.heap.object? address = some (.instanceOf name properties))
    (hv : ∀ p ∈ c.properties, properties.get? p.name = some (value p))
    (ho' : s.heap.object? this = some (.instanceOf name properties'))
    (hinit : Yields prog (invoke (.ref this) (initMethod c) (c.properties.map value))
      { s with locals := [("other", .ref address)] } .null ⟨heap, [("other", .ref address)]⟩) :
    Yields prog (invoke (.ref this) (constructorMethod (copyConstructor c)) [.ref address]) s .null
      { s with heap } := by
  let u : State := { s with locals := [("other", .ref address)] }
  have hother : Evaluates prog (.ref this) u (.ident "other") (.ref address) := .localOf rfl
  have hskip : Yields prog (execute (.ref this) (.ifThen (Expr.ident "other").isNull
      [.raise (argumentNull "other")])) u .next u := yields_ifElse (hother.isNull rfl) yields_emptyBlock
  have hvalues := yields_evaluateAll_map (f := fun p : Property => .member (.ident "other") p.name)
    fun p hp => Evaluates.member hother (yields_property (s := u) ho (hv p hp))
  have hrun := yields_initCall (s := u) hc ho' hvalues hinit
  exact yields_invokeTo rfl (.next hskip (.single hrun)) (Or.inr ⟨rfl, rfl⟩)

/-- The copy of an instance. -/
def copiedFields (prog : Program) (c : ClassModel) (a : Json) : Fields Json :=
  c.shown fun p => prog.registry.copyOf (a.part p.jsonName) p.shape

/-- **The copy constructor of an object**, if its properties are copied as they should. -/
theorem yields_construct {address : Nat} {properties : Fields Value} {s : State}
    (hc : prog.registry.get? name = some c) (hkeys : c.DistinctKeys) (hn : CopyNames c)
    (hbase : base <+: s.heap) (ho : base.object? address = some (.instanceOf name properties))
    (hv : ∀ p ∈ c.properties, properties.get? p.name = some (value p))
    (ih : ∀ p ∈ c.properties, CopyRefines prog base p.shape (value p) (a.part p.jsonName)) :
    ∃ ext cells, Row prog.registry .exact s.heap.length (s.heap ++ ext)
        [⟨.ofClass name, .ref s.heap.length, .object (copiedFields prog c a), cells⟩] ∧
      Yields prog (construct prog (.named name) [.ref address]) s (.ref s.heap.length)
        (s.grow ext) := by
  let new : State := s.grow [⟨.instanceOf name (assigned c []), 0⟩]
  have hnew : base <+: new.heap := hbase.trans (List.prefix_append _ _)
  have hother : new.heap.object? address = some (.instanceOf name properties) := by
    obtain ⟨ext, hext⟩ := hnew
    rw [← hext]
    exact Heap.object?_append ho ext
  obtain ⟨heap, parts, hparts, hfilled, hinit⟩ := yields_init
    (s := { new with locals := [("other", .ref address)] }) hn hbase ih rfl
  obtain ⟨ext, rfl⟩ := hfilled.before
  have hrun := yields_copyConstructor (s := new) hc hother hv (Heap.object?_append_singleton _ _) hinit
  have hproperty (q) (hq : q ∈ parts) : q.1 ∈ c.properties := hparts ▸ List.mem_map.2 ⟨q, hq, rfl⟩
  have hnames := nodup_held hn.nodup hparts
  refine ⟨ext, _, hfilled.single (.object parts hc hparts hfilled.object hfilled.shapes
    (fun q hq => ?_) (fun q hq => ?_) (fun q hq => ?_) fun _ => ?_), ?_⟩
  · rw [hfilled.trees q hq, copiedFields, ClassModel.part_shown hkeys (hproperty q hq)]
  · exact get?_assigned hnames (List.mem_map.2 ⟨q, hq, rfl⟩)
  · exact hfilled.row.owns _ (List.mem_map.2 ⟨q, hq, rfl⟩)
  · refine ClassModel.shown_congr fun p hp => ?_
    rw [copiedFields, ClassModel.part_shown hkeys hp]
  · rw [construct, hc]
    exact Yields.bind (yields_allocate _) (Yields.bind hrun (Yields.result _ _))

theorem copyValue_object {fields : List (String × Json)} (hc : prog.registry.get? name = some c)
    (hkeys : c.DistinctKeys)
    (ih : ∀ p ∈ c.properties,
      CopyRefines prog base p.shape (value p) ((Json.object fields).part p.jsonName)) :
    prog.registry.copyValue (.object fields) (.ofClass name) =
      .ok (.object (copiedFields prog c (.object fields))) :=
  (prog.registry.copyValue_class rfl (Registry.find_of_get? hc) hkeys).2
    ⟨fun p hp => (ih p hp).copies, rfl⟩

/-- **Objects** are copied by their own constructors. -/
theorem copyRefines_object {address : Nat} {properties : Fields Value}
    {fields : List (String × Json)} (hc : prog.registry.get? name = some c)
    (hkeys : c.DistinctKeys) (hn : CopyNames c)
    (ho : base.object? address = some (.instanceOf name properties))
    (hv : ∀ p ∈ c.properties, properties.get? p.name = some (value p))
    (ih : ∀ p ∈ c.properties,
      CopyRefines prog base p.shape (value p) ((Json.object fields).part p.jsonName)) :
    CopyRefines prog base (.ofClass name) (.ref address) (.object fields) := by
  have hcopy := copyValue_object hc hkeys ih
  refine ⟨Registry.copies_of_eq hcopy, nofun, fun {this s source level} keepNull {sink target put}
    hbase hstable hsink => ?_⟩
  obtain ⟨ext, cells, hrow, hrun⟩ := yields_construct hc hkeys hn hbase ho hv ih
  refine ⟨ext, .ref s.heap.length, cells, ?_, ?_⟩
  · rw [Registry.copyOf_eq hcopy]
    exact hrow
  · rw [handsOn_of_not_null rfl, if_pos rfl]
    have hnew := yields_new (yields_evaluateAll_cons hstable.evaluates yields_evaluateAll_nil) hrun
    have hsunk := hsink s (s.grow ext) _ _ (.refl _ _ s)
      (.of_extends (List.prefix_append _ _) _ _) hnew
    exact executes_guardedCopy hstable.evaluates rfl rfl (yields_blockTo [] (.single hsunk) rfl)

end

/-- **Generated statements copy as the evaluator does.** -/
theorem Denotes.copyRefines {shape : Shape} {v : Value} {a : Json}
    (hn : ∀ d, prog.registry.Reaches shape d → d.DistinctKeys ∧ CopyNames d)
    (hv : Denotes prog.registry base shape v a) : CopyRefines prog base shape v a := by
  induction hv with
  | null h => exact copyRefines_null h
  | scalar h => exact copyRefines_scalar h
  | object value hc ho hv _ ih =>
    obtain ⟨hkeys, hnames⟩ := hn _ (.here rfl hc)
    exact copyRefines_object hc hkeys hnames ho hv fun p hp =>
      ih p hp fun d hd => hn d (.there rfl hc hp hd)
  | list items ho _ ih => exact copyRefines_list ho fun q hq => ih q hq fun d hd => hn d hd.array
  | map entries hk ho _ ih =>
    exact copyRefines_map hk ho fun e he => ih e he fun d hd => hn d hd.map

/-! ## The constructor -/

/-- **Generated copies are the copies of instances.** For a class of a registry that was built from a
schema, where the names in the `Init` methods of all classes that its objects lead to are in order:

* well-typed trees lie in some heap;
* wherever one lies, the evaluator copies it, and the copy constructor ends with a new object that
  stands for the copy: its properties that are not `null` are the fields of the copy. The run meets no
  fault, such as a dereferenced `null`. It only adds objects to the heap, and the copy is made of such
  objects, without sharing. -/
theorem copyConstructor_refines {schema : Schema} {hints : HintTable} {rootClass name : String}
    {r : Registry} {c : ClassModel} {a : Json}
    (hbuild : Registry.build schema hints rootClass = .ok r) (hc : r.get? name = some c)
    (hnames : ∀ d, r.Reaches (.ofClass name) d → CopyNames d)
    (ha : r.fits a (.ofClass name) = true) (hnull : a.isNull = false) :
    (∃ heap v, Denotes r heap (.ofClass name) v a) ∧
    ∀ (s : State) (v : Value), Denotes r s.heap (.ofClass name) v a →
      ∃ copy ext w cells, r.deepClone name a = .ok copy ∧
        Yields r (construct r (.named name) [v]) s w (s.grow ext) ∧
        Owns r .exact (s.heap ++ ext) ⟨.ofClass name, w, copy, cells⟩ ∧
        cells.Nodup ∧ ∀ x ∈ cells, s.heap.length ≤ x := by
  have hnames' (d) (hd : r.Reaches (.ofClass name) d) : d.DistinctKeys ∧ CopyNames d :=
    ⟨Registry.distinctKeys_of_nodup_names hbuild d hd.mem (hnames d hd).nodup, hnames d hd⟩
  constructor
  · obtain ⟨ext, v, hv⟩ := exists_denotes (fun d hd => (hnames d hd).nodup) ha []
    exact ⟨_, v, hv⟩
  · intro s v hv
    cases hv with
    | null _ => cases hnull
    | object value hc' ho hv hd =>
      cases hc.symm.trans hc'
      obtain ⟨hkeys, hn⟩ := hnames' c (.here rfl hc)
      have hparts (p) (hp : p ∈ c.properties) :
          CopyRefines r s.heap p.shape (value p) (Json.part _ p.jsonName) :=
        (hd p hp).copyRefines fun d hd => hnames' d (.there rfl hc hp hd)
      obtain ⟨ext, cells, hrow, hrun⟩ := yields_construct hc hkeys hn (List.prefix_refl _) ho hv hparts
      exact ⟨_, ext, _, cells, copyValue_object hc hkeys hparts, hrun, Row.singleton_iff.1 hrow⟩

theorem copyConstructor_refines_trees :
    ∃ v s copy ext w cells, Denotes Registry.trees s.heap (.ofClass "Tree") v Registry.aTree ∧
      Registry.trees.deepClone "Tree" Registry.aTree = .ok copy ∧
      Yields Registry.trees (construct Registry.trees (.named "Tree") [v]) s w (s.grow ext) ∧
      Owns Registry.trees .exact (s.heap ++ ext) ⟨.ofClass "Tree", w, copy, cells⟩ ∧
      cells.Nodup ∧ ∀ x ∈ cells, s.heap.length ≤ x := by
  have hnames (d) (hd : Registry.trees.Reaches (.ofClass "Tree") d) : CopyNames d := by
    cases List.mem_singleton.1 hd.mem
    exact ⟨⟨by decide +kernel, by decide +kernel⟩, by decide +kernel⟩
  have ha : Registry.trees.fits Registry.aTree (.ofClass "Tree") = true := by decide
  obtain ⟨⟨heap, v, hv⟩, h⟩ := copyConstructor_refines build_treeSchema rfl hnames ha rfl
  obtain ⟨copy, ext, w, cells, hcopy⟩ := h ⟨heap, []⟩ v hv
  exact ⟨v, ⟨heap, []⟩, copy, ext, w, cells, hv, hcopy⟩

end Machine

/-! ## A property that is hidden -/

/-- A schema for rosters, which hold an array, and for teams with a roster. -/
def rosterSchema : Schema := {
  definitions := [
    ("Roster", (singleSource "Roster" "names" {
      type := some (.one .array), items := some { type := some (.one .string) } }).schema),
    ("Team", (singleSource "Team" "roster" { reference := some "#/definitions/Roster" }).schema)] }

/-- Hints that name the array. -/
def rosterHints (member : String) : HintTable := ⟨[("Roster.names", [.propertyName member])]⟩

/-- Rosters, whose array has a given name. -/
def rosterClass (member : String) : ClassModel where
  schemaId := "Roster"
  name := "Roster"
  description := none
  baseTypes := []
  properties := [Registry.trees.property "names" member (.array (.scalar .string))]

/-- Teams with a roster. -/
def teamClass : ClassModel where
  schemaId := "Team"
  name := "Team"
  description := none
  baseTypes := []
  properties := [Registry.trees.property "roster" "Roster" (.ofClass "Roster")]

/-- A registry of both. -/
def Registry.rosters (member : String) : Registry := .ofClasses [rosterClass member, teamClass]

/-- A roster with one name. -/
def Registry.aRoster : Json := .object [("names", .list [.text "Ada"])]

/-- A team with that roster. -/
def Registry.aTeam : Json := .object [("roster", aRoster)]

theorem build_rosterSchema (member : String) :
    Registry.build rosterSchema (rosterHints member) "Root" = .ok (Registry.rosters member) := by
  let scope : Scope := rosterSchema.scope (rosterHints member)
  have hnames : scope.propertyShape ⟨"Roster", "names"⟩ {
      type := some (.one .array), items := some { type := some (.one .string) } } =
      ⟨.array (.scalar .string), [], []⟩ := by
    rw [show scope.propertyShape ⟨"Roster", "names"⟩ = scope.classify ⟨"Roster", "names"⟩ [] from rfl,
      Scope.classify_eq_onward]
    exact congrArg (Noted.map Shape.array) ((Scope.classify_eq_onward _ _).trans rfl)
  have hroster : scope.propertyShape ⟨"Team", "roster"⟩ { reference := some "#/definitions/Roster" } =
      ⟨.ofClass "Roster", [], []⟩ :=
    (Scope.classify_eq_onward _ _).trans rfl
  have hnoted : (rosterSchema.classSources "Root").map scope.noted =
      [{ value := rosterClass member }, { value := teamClass }] :=
    congrArg₂ (fun m n => [m, n]) (Scope.noted_singleSource hnames)
      (Scope.noted_singleSource hroster)
  have hsorted : ["Roster", "Team"].Pairwise (· < ·) := by decide
  exact Registry.build_of_sorted hnoted hsorted (by simp)

namespace Machine

/-- A heap with a roster and a team. -/
def rosterHeap (member : String) : Heap := [
  ⟨.list [.leaf (.text "Ada")], 0⟩, ⟨.instanceOf "Roster" [(member, .ref 0)], 0⟩,
  ⟨.instanceOf "Team" [("Roster", .ref 1)], 0⟩]

theorem denotes_roster (member : String) :
    Denotes (Registry.rosters member) (rosterHeap member) (.ofClass "Roster") (.ref 1)
      Registry.aRoster := by
  refine .object (fun _ => .ref 0) rfl rfl (fun p hp => ?_) fun p hp => ?_
  · cases List.mem_singleton.1 hp
    exact Fields.get?_cons_self ..
  · cases List.mem_singleton.1 hp
    refine .list [(.leaf (.text "Ada"), .text "Ada")] rfl fun q hq => ?_
    cases List.mem_singleton.1 hq
    exact .scalar rfl

theorem denotes_team (member : String) :
    Denotes (Registry.rosters member) (rosterHeap member) (.ofClass "Team") (.ref 2)
      Registry.aTeam := by
  refine .object (fun _ => .ref 1) rfl rfl (fun p hp => ?_) fun p hp => ?_
  · cases List.mem_singleton.1 hp
    rfl
  · cases List.mem_singleton.1 hp
    exact denotes_roster member

/-- A roster whose array is missing is another one. -/
theorem not_denotes_roster {member : String} {heap : Heap} {roster : Nat}
    (ho : heap.object? roster = some (.instanceOf "Roster" [(member, .null)])) :
    ¬ Denotes (Registry.rosters member) heap (.ofClass "Roster") (.ref roster) Registry.aRoster := by
  intro h
  have hnames : Denotes (Registry.rosters member) heap (.array (.scalar .string)) .null
      (Registry.aRoster.part "names") :=
    h.part rfl ho (List.mem_singleton.2 rfl) (Fields.get?_cons_self ..)
  cases hnames.eq_null

theorem not_denotes_team {member : String} {heap : Heap} {roster team : Nat}
    (ho : heap.object? roster = some (.instanceOf "Roster" [(member, .null)]))
    (ht : heap.object? team = some (.instanceOf "Team" [("Roster", .ref roster)])) :
    ¬ Denotes (Registry.rosters member) heap (.ofClass "Team") (.ref team) Registry.aTeam :=
  fun h => not_denotes_roster ho (h.part rfl ht (List.mem_singleton.2 rfl) rfl)

set_option maxRecDepth 4000 in
theorem run_roster : construct (Registry.rosters "destination_0") (.named "Roster") [.ref 1]
    (engine (Registry.rosters "destination_0") 12) ⟨rosterHeap "destination_0", []⟩ =
      .ok (.ref 3, ⟨rosterHeap "destination_0" ++ [
        ⟨.instanceOf "Roster" [("destination_0", .null)], 0⟩, ⟨.list [.leaf (.text "Ada")], 1⟩], []⟩) := by
  rfl

set_option maxRecDepth 4000 in
theorem run_team {member : String} (h : member ∈ ["destination_0", "names"]) :
    construct (Registry.rosters member) (.named "Team") [.ref 2]
      (engine (Registry.rosters member) 16) ⟨rosterHeap member, []⟩ =
        .ok (.ref 3, ⟨rosterHeap member ++ [⟨.instanceOf "Team" [("Roster", .ref 4)], 1⟩,
          ⟨.instanceOf "Roster" [(member, .null)], 0⟩, ⟨.list [.leaf (.text "Ada")], 1⟩], []⟩) := by
  rcases List.mem_pair.1 h with rfl | rfl <;> rfl

/-- **An array whose name is hidden in `Init` is lost.** The parameters of `Init` are in order, but
`destination_0 = destination_0;` assigns to the local and not to the property. The same happens to
arrays further on, where all names of the class itself are in order, and if an array has the name of
a parameter there, as in `names = destination_0;`. -/
theorem copyConstructor_loses_hidden :
    (Registry.build rosterSchema (rosterHints "destination_0") "Root" =
        .ok (Registry.rosters "destination_0") ∧
      (∀ d, (Registry.rosters "destination_0").Reaches (.ofClass "Roster") d → ParameterNames d) ∧
      (Registry.rosters "destination_0").fits Registry.aRoster (.ofClass "Roster") = true ∧
      ∃ s v copy, Denotes (Registry.rosters "destination_0") s.heap (.ofClass "Roster") v
          Registry.aRoster ∧
        (Registry.rosters "destination_0").deepClone "Roster" Registry.aRoster = .ok copy ∧
        ¬ ∃ w t cells,
          Yields (Registry.rosters "destination_0")
            (construct (Registry.rosters "destination_0") (.named "Roster") [v]) s w t ∧
          Owns (Registry.rosters "destination_0") .exact t.heap
            ⟨.ofClass "Roster", w, copy, cells⟩) ∧
    ∀ member ∈ ["destination_0", "names"],
      Registry.build rosterSchema (rosterHints member) "Root" = .ok (Registry.rosters member) ∧
      (Registry.rosters member).get? "Team" = some teamClass ∧ CopyNames teamClass ∧
      (Registry.rosters member).fits Registry.aTeam (.ofClass "Team") = true ∧
      ∃ s v copy, Denotes (Registry.rosters member) s.heap (.ofClass "Team") v Registry.aTeam ∧
        (Registry.rosters member).deepClone "Team" Registry.aTeam = .ok copy ∧
        ¬ ∃ w t cells,
          Yields (Registry.rosters member) (construct (Registry.rosters member) (.named "Team") [v])
            s w t ∧
          Owns (Registry.rosters member) .exact t.heap ⟨.ofClass "Team", w, copy, cells⟩ := by
  constructor
  · have hnames (d) (hd : (Registry.rosters "destination_0").Reaches (.ofClass "Roster") d) :
        ParameterNames d := by
      rcases List.mem_pair.1 hd.mem with rfl | rfl <;>
        exact ⟨by decide +kernel, by decide +kernel⟩
    refine ⟨build_rosterSchema _, hnames, rfl, ⟨rosterHeap _, []⟩, .ref 1, Registry.aRoster,
      denotes_roster _, rfl, ?_⟩
    rintro ⟨w, t, cells, hrun, howns⟩
    obtain ⟨rfl, rfl⟩ := hrun.eq_of_engine run_roster
    exact not_denotes_roster rfl (howns.denotes nofun)
  · intro member hmember
    have hnames : CopyNames teamClass := ⟨⟨by decide +kernel, by decide +kernel⟩, by decide +kernel⟩
    refine ⟨build_rosterSchema _, rfl, hnames, rfl, ⟨rosterHeap _, []⟩, .ref 2, Registry.aTeam,
      denotes_team _, rfl, ?_⟩
    rintro ⟨w, t, cells, hrun, howns⟩
    obtain ⟨rfl, rfl⟩ := hrun.eq_of_engine (run_team hmember)
    exact not_denotes_team rfl rfl (howns.denotes nofun)

end Machine

end Classwright
