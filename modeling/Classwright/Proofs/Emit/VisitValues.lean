import Classwright.Proofs.Emit.Names
import Classwright.Proofs.Machine.Kept
import Classwright.Proofs.Machine.Substitution

/-!
# Generated visits of lists and dictionaries

The statements of a visitor for a value that is no instance. A list or a dictionary is gone through
element by element and changed in place. An element that is an object is assigned through its index,
and a container in a container is visited through a local for it.

## The architecture

* **`Slot`** — where a value lies that statements visit: a property, an item of a list or an entry of
  a dictionary. Each of them belongs to one object, its home.
* **`VisitRefines`** — what is to be shown of a tree without sharing: the evaluator visits it, and the
  statements for a slot with it leave a value in the slot that stands for the result. They write to
  the tree and to the home of the slot at most.
* **`Visiting`** — an object on its way: some of its parts are replaced and the others are as they
  were. Lists, dictionaries and instances are all gone through one part after another, and
  **`Visiting.step`** is the step that they share.
* **`visitRefines_of_no_class`**, **`visitRefines_null`**, **`visitRefines_list`**,
  **`visitRefines_map`** — one result for each kind of value.
-/

namespace Classwright.Machine

open Code Emit

variable {prog : Program} {f : String → Json → Json} {base : Heap}

/-! ## Places of values -/

/-- The local that goes through a container. -/
def visitLocals : Shape → Nat → List String
  | .array _, level => [numbered "index" level]
  | .map _, level => [numbered "key" level]
  | _, _ => []

/-- A local of a level has another name than those of the levels below. -/
theorem numbered_not_mem_visitLocals (base : String) (shape : Shape) (level : Nat) :
    numbered base level ∉ visitLocals shape (level + 1) := by
  intro h
  cases shape with
  | scalar p => cases h
  | ofClass name => cases h
  | array element => exact absurd (numbered_inj.1 (List.mem_singleton.1 h)).2 (by omega)
  | map element => exact absurd (numbered_inj.1 (List.mem_singleton.1 h)).2 (by omega)

/-- The object that holds a value, and what it is with another value in the place of that one. -/
structure Place (heap : Heap) (q : Part) (home : Nat) (put : Value → Object) : Prop where
  holds : heap.object? home = some (put q.value)
  outside : home ∉ q.cells
  keeps {heap : Heap} {w : Value} (h : heap.isFixed q.value = true → w = q.value) :
    (put q.value).Keeps heap (put w)

/-- An expression for a place. It can be read while the tree in the place changes, and where there is
an object to be replaced, it can be assigned to. -/
structure Slot (prog : Program) (this : Value) (s : State) (q : Part) (level : Nat) (target : Expr)
    (home : Nat) (put : Value → Object) : Prop extends Place s.heap q home put where
  reads : Stable prog this s (visitLocals q.shape level) (· ∈ q.cells) target q.value
  assigns {name : String} (hclass : q.shape = .ofClass name) {e : Expr} {w : Value} {heap : Heap}
    (hheap : heap.object? home = s.heap.object? home)
    (he : Yields prog (evaluate this e) s w { s with heap }) :
    Yields prog (execute this (.assign target e)) s .next
      (({ s with heap } : State).write home (put w))

/-- A value stands for what the evaluator makes of a tree, and it is made of the objects of the tree
and of new ones. -/
structure Replaces (r : Registry) (f : String → Json → Json) (q : Part) (heap heap' : Heap)
    (w : Value) (cells : List Nat) : Prop where
  owns : Owns r .replaced heap' ⟨q.shape, w, (r.rewritten f q.tree q.shape).value, cells⟩
  nodup : cells.Nodup
  within : ∀ x ∈ cells, x ∈ q.cells ∨ heap.length ≤ x

/-- The statements for a slot leave a replacement in it. They write to the tree and to the home of the
slot, and to nothing else. -/
def Revises (prog : Program) (f : String → Json → Json) (this : Value) (s : State) (q : Part)
    (level : Nat) (target : Expr) (home : Nat) (put : Value → Object) : Prop :=
  ∃ heap w cells, Replaces prog.registry f q s.heap heap w cells ∧
    Touched (fun x => x = home ∨ x ∈ q.cells) s.heap heap ∧ heap.object? home = some (put w) ∧
    Executes prog this s (visitStatements target q.shape level) .next { s with heap }

/-- The evaluator visits a tree, and the statements for a slot with it do the same. The heap may have
changed meanwhile, but not in the tree. -/
structure VisitRefines (prog : Program) (f : String → Json → Json) (base : Heap) (q : Part) :
    Prop where
  rewrites : prog.registry.Rewrites f q.tree q.shape
  executes {this : Value} {s : State} {target : Expr} {level home : Nat} {put : Value → Object}
    (hbase : ∀ x ∈ q.cells, s.heap.object? x = base.object? x)
    (hslot : Slot prog this s q level target home put) :
    Revises prog f this s q level target home put

/-! ## Values that stay in their place -/

/-- Statements that write to the tree only, and not to the home of the slot. -/
theorem VisitRefines.of_inPlace {q : Part} (hrewrites : prog.registry.Rewrites f q.tree q.shape)
    (h : ∀ {this s target level}, (∀ x ∈ q.cells, s.heap.object? x = base.object? x) →
      Stable prog this s (visitLocals q.shape level) (· ∈ q.cells) target q.value →
      ∃ heap cells, Replaces prog.registry f q s.heap heap q.value cells ∧
        Touched (· ∈ q.cells) s.heap heap ∧
        Executes prog this s (visitStatements target q.shape level) .next { s with heap }) :
    VisitRefines prog f base q := by
  refine ⟨hrewrites, fun hbase hslot => ?_⟩
  obtain ⟨heap, cells, hreplaces, htouched, hrun⟩ := h hbase hslot.reads
  refine ⟨heap, q.value, cells, hreplaces, htouched.mono fun x _ hx => Or.inr hx, ?_, hrun⟩
  rw [htouched.object? (Heap.lt_of_object? hslot.holds) hslot.outside, hslot.holds]

/-- A tree that the evaluator leaves as it is. -/
theorem Replaces.of_same {r : Registry} {q : Part} {heap : Heap} (hq : Owns r .plain heap q)
    (hnodup : q.cells.Nodup) (hsame : (r.rewritten f q.tree q.shape).value = q.tree) :
    Replaces r f q heap heap q.value q.cells where
  owns := by
    rw [hsame]
    exact hq.weaken (fun h => absurd h (by decide)) fun h => absurd h (by decide)
  nodup := hnodup
  within _ hx := Or.inl hx

theorem visitStatements_of_no_class {shape : Shape} (h : shape.containsClass = false)
    (target : Expr) (level : Nat) : visitStatements target shape level = [] := by
  cases shape with
  | scalar p => rfl
  | ofClass name => cases h
  | array element => exact if_neg (by rw [show element.containsClass = false from h]; decide)
  | map element => exact if_neg (by rw [show element.containsClass = false from h]; decide)

/-- The statements for an element of a container that a local leads to. -/
def visitElement (target : Expr) (element : Shape) (counter : String) (level : Nat) : List Stmt :=
  withElement element (.index target (.ident counter)) level fun e =>
    visitStatements e element (level + 1)

theorem visitElement_of_container {element : Shape} (h : ∀ name, element ≠ .ofClass name)
    (target : Expr) (counter : String) (level : Nat) :
    visitElement target element counter level =
      .var (numbered "value" level) (.index target (.ident counter)) ::
        visitStatements (.ident (numbered "value" level)) element (level + 1) := by
  cases element with
  | ofClass name => exact absurd rfl (h name)
  | _ => rfl

theorem visitStatements_array {element : Shape} (h : element.containsClass = true) (target : Expr)
    (level : Nat) : visitStatements target (.array element) level =
      [.ifThen target.isNotNull [.forBelow (numbered "index" level) (count target)
        (visitElement target element (numbered "index" level) level)]] :=
  if_pos h

theorem visitStatements_map {element : Shape} (h : element.containsClass = true) (target : Expr)
    (level : Nat) : visitStatements target (.map element) level =
      [.ifThen target.isNotNull [.forEach (numbered "key" level) (some (.named "string"))
        (.new (.generic "List" [.named "string"]) [.member target "Keys"])
        (visitElement target element (numbered "key" level) level)]] :=
  if_pos h

/-- What leads nowhere is replaced by itself. -/
theorem Replaces.value_eq {r : Registry} {q : Part} {heap heap' : Heap} {w : Value}
    {cells : List Nat} (h : Replaces r f q heap heap' w cells) (hq : Owns r .plain base q)
    (hv : ∀ address, q.value ≠ .ref address) : w = q.value := by
  have howns := h.owns
  cases hq with
  | null _ =>
    rw [Registry.rewritten_eq (Registry.visitValue_null _)] at howns
    exact howns.value_eq_null rfl
  | @scalar p a ha =>
    rw [Registry.rewritten_of_no_class rfl] at howns
    cases howns with
    | null _ => cases p <;> cases ha
    | scalar _ => rfl
  | foreign hform _ => cases hform
  | object _ _ _ _ _ _ _ _ _ => exact absurd rfl (hv _)
  | list _ _ _ _ => exact absurd rfl (hv _)
  | map _ _ _ _ _ => exact absurd rfl (hv _)

/-- **Trees without objects** are not visited at all. -/
theorem visitRefines_of_no_class {q : Part} (hclass : q.shape.containsClass = false)
    (hq : Owns prog.registry .plain base q) (hnodup : q.cells.Nodup) : VisitRefines prog f base q := by
  have hvisit := Registry.visitValue_of_no_class (r := prog.registry) (f := f) (v := q.tree) hclass
  refine .of_inPlace (Registry.rewrites_of_eq hvisit) fun {this s target level} hbase _ => ?_
  refine ⟨s.heap, q.cells, .of_same (hq.congr hbase) hnodup ?_, .refl _ _, ?_⟩
  · rw [Registry.rewritten_eq hvisit]
  · rw [visitStatements_of_no_class hclass]
    exact .nil

/-! ## Objects and `null` in the places of objects -/

/-- The result of a visit is assigned to the slot. -/
theorem executes_visitNode {this w : Value} {s : State} {target : Expr} {level home : Nat}
    {name : String} {put : Value → Object} {q : Part} {heap : Heap} {cells : List Nat}
    (hslot : Slot prog this s q level target home put) (hshape : q.shape = .ofClass name)
    (hnode : Yields prog (visitNode prog this q.value) s w { s with heap })
    (htouched : Touched (· ∈ q.cells) s.heap heap)
    (hfixed : heap.isFixed q.value = true → w = q.value)
    (hreplaces : Replaces prog.registry f q s.heap heap w cells) :
    Revises prog f this s q level target home put := by
  let t : State := { s with heap }
  have hlt := Heap.lt_of_object? hslot.holds
  have hsame : heap.object? home = s.heap.object? home := htouched.object? hlt hslot.outside
  have hobject (x : Nat) := t.object?_write (Nat.lt_of_lt_of_le hlt htouched.grown) (put w) x
  -- the home is neither one of the old objects of the tree nor a new one
  have hhome (x) (hx : x ∈ cells) : x ≠ home := by
    rintro rfl
    rcases hreplaces.within x hx with hold | hnew
    · exact hslot.outside hold
    · omega
  refine ⟨(t.write home (put w)).heap, w, cells, ⟨?_, hreplaces.nodup, hreplaces.within⟩, ?_, ?_, ?_⟩
  · refine hreplaces.owns.congr fun x hx => ?_
    rw [hobject, if_neg (hhome x hx)]
  · have hwrite : Touched (fun x => x = home ∨ x ∈ q.cells) heap (t.write home (put w)).heap :=
      .write (s := t) (hsame.trans hslot.holds) (hslot.keeps hfixed) (Or.inl rfl)
    exact (htouched.mono fun x _ hx => Or.inr hx).trans hwrite
  · rw [hobject, if_pos rfl]
  · rw [hshape]
    exact .single (hslot.assigns hshape hsame (yields_visitNullChecked hslot.reads.evaluates hnode))

/-- **`null`** stays `null`. -/
theorem visitRefines_null {shape : Shape} (h : shape.isReferenceType = true) :
    VisitRefines prog f base ⟨shape, .null, .null, []⟩ := by
  have hvisit := Registry.visitValue_null (r := prog.registry) (f := f) shape
  have hrewrites := Registry.rewrites_of_eq hvisit
  have hsame (heap : Heap) : Replaces prog.registry f ⟨shape, .null, .null, []⟩ heap heap .null [] :=
    .of_same (.null h) List.nodup_nil (by rw [Registry.rewritten_eq hvisit])
  have hskip {this : Value} {s : State} {target : Expr} (hv : Evaluates prog this s target .null)
      (yes : List Stmt) : Executes prog this s [.ifThen target.isNotNull yes] .next s :=
    executes_unlessNull hv rfl (fun _ => rfl) fun hnull => absurd hnull (by decide)
  cases hclass : shape.containsClass with
  | false => exact visitRefines_of_no_class hclass (.null h) List.nodup_nil
  | true =>
    cases shape with
    | scalar p => cases hclass
    | ofClass name =>
      exact ⟨hrewrites, fun _ hslot => executes_visitNode hslot rfl yields_visitNode_null
        (.refl _ _) (fun _ => rfl) (hsame _)⟩
    | array element =>
      refine .of_inPlace hrewrites fun {this s target level} _ hv =>
        ⟨s.heap, [], hsame _, .refl _ _, ?_⟩
      rw [visitStatements_array (show element.containsClass = true from hclass)]
      exact hskip hv.evaluates _
    | map element =>
      refine .of_inPlace hrewrites fun {this s target level} _ hv =>
        ⟨s.heap, [], hsame _, .refl _ _, ?_⟩
      rw [visitStatements_map (show element.containsClass = true from hclass)]
      exact hskip hv.evaluates _

/-! ## Objects, part by part -/

/-- Addresses give way to some of them and to ones that are not in use. -/
theorem nodup_replace {home n : Nat} {before cells cells' after : List Nat}
    (h : (home :: (before ++ (cells ++ after))).Nodup) (hcells : cells'.Nodup)
    (hwithin : ∀ x ∈ cells', x ∈ cells ∨ n ≤ x) (hlt : ∀ x ∈ home :: (before ++ after), x < n) :
    (home :: (before ++ (cells' ++ after))).Nodup := by
  simp only [List.nodup_cons, List.nodup_append, List.mem_append, List.mem_cons] at h hlt ⊢
  grind

section

variable {α : Type} {r : Registry} {home : Nat} {l : List α} {old : α → Part}
  {hold : List (α × Value) → Object → Prop} {initial heap : Heap} {done : List (α × Part)}
  {rest : List α}

/-- An object on its way. It holds what `done` is for and, for the elements of `l` that are left, what
it held initially. All of this shares nothing. -/
structure Visiting (r : Registry) (f : String → Json → Json) (home : Nat) (l : List α)
    (old : α → Part) (hold : List (α × Value) → Object → Prop) (initial heap : Heap)
    (done : List (α × Part)) (rest : List α) : Prop where
  split : done.map Prod.fst ++ rest = l
  object : ∃ o, heap.object? home = some o ∧
    hold (held done ++ rest.map fun x => (x, (old x).value)) o
  shapes : ∀ q ∈ done, q.2.shape = (old q.1).shape
  trees : ∀ q ∈ done, q.2.tree = (r.rewritten f (old q.1).tree (old q.1).shape).value
  owns : ∀ q ∈ done, Owns r .replaced heap q.2
  bound : ∀ x ∈ Part.allCells (l.map old), x < initial.length
  same : ∀ x ∈ Part.allCells (rest.map old), heap.object? x = initial.object? x
  nodup : (home :: Part.allCells (done.map Prod.snd ++ rest.map old)).Nodup
  within : ∀ x ∈ Part.allCells (done.map Prod.snd),
    x ∈ Part.allCells (l.map old) ∨ initial.length ≤ x
  touched : Touched (· ∈ home :: Part.allCells (l.map old)) initial heap

namespace Visiting

theorem start {o : Object} (ho : heap.object? home = some o)
    (hhold : hold (l.map fun x => (x, (old x).value)) o)
    (hbound : ∀ x ∈ Part.allCells (l.map old), x < heap.length)
    (hnodup : (home :: Part.allCells (l.map old)).Nodup) :
    Visiting r f home l old hold heap heap [] l where
  split := rfl
  object := ⟨o, ho, hhold⟩
  shapes _ hq := absurd hq List.not_mem_nil
  trees _ hq := absurd hq List.not_mem_nil
  owns _ hq := absurd hq List.not_mem_nil
  bound := hbound
  same _ _ := rfl
  nodup := hnodup
  within _ hx := absurd hx List.not_mem_nil
  touched := .refl _ _

theorem mem_of_rest (h : Visiting r f home l old hold initial heap done rest) {x : α}
    (hx : x ∈ rest) : x ∈ l :=
  h.split ▸ List.mem_append_right _ hx

theorem mem_of_done (h : Visiting r f home l old hold initial heap done rest) {q : α × Part}
    (hq : q ∈ done) : q.1 ∈ l :=
  h.split ▸ List.mem_append_left _ (List.mem_map.2 ⟨q, hq, rfl⟩)

theorem eq_of_done (h : Visiting r f home l old hold initial heap done []) :
    done.map Prod.fst = l := by
  rw [← h.split, List.append_nil]

theorem rest_subset (h : Visiting r f home l old hold initial heap done rest) :
    Part.allCells (rest.map old) ⊆ Part.allCells (l.map old) := by
  intro x hx
  rw [← h.split, List.map_append, Part.allCells_append]
  exact List.mem_append_right _ hx

/-- Everything that the object leads to exists already. -/
theorem lt (h : Visiting r f home l old hold initial heap done rest) :
    ∀ x ∈ home :: (Part.allCells (done.map Prod.snd) ++ Part.allCells (rest.map old)),
      x < heap.length := by
  intro x hx
  obtain ⟨o, ho, -⟩ := h.object
  rcases List.mem_cons.1 hx with rfl | hx
  · exact Heap.lt_of_object? ho
  · rcases List.mem_append.1 hx with hx | hx
    · obtain ⟨p, hp, hx⟩ := List.mem_flatMap.1 hx
      obtain ⟨q, hq, rfl⟩ := List.mem_map.1 hp
      exact (h.owns q hq).lt x hx
    · exact Nat.lt_of_lt_of_le (h.bound x (h.rest_subset hx)) h.touched.grown

/-- **One more part**: it is replaced, and the object holds the replacement. -/
theorem step {heap' : Heap} {x : α} {w : Value} {cells : List Nat} {o : Object}
    (h : Visiting r f home l old hold initial heap done (x :: rest))
    (hx : Replaces r f (old x) heap heap' w cells)
    (htouched : Touched (fun y => y = home ∨ y ∈ (old x).cells) heap heap')
    (ho : heap'.object? home = some o)
    (hhold : hold (held done ++ (x, w) :: rest.map fun y => (y, (old y).value)) o) :
    Visiting r f home l old hold initial heap'
      (done ++ [(x, ⟨(old x).shape, w, (r.rewritten f (old x).tree (old x).shape).value, cells⟩)])
      rest := by
  have hlt := h.lt
  have hnodup := h.nodup
  rw [Part.allCells_append, List.map_cons, Part.allCells_cons] at hnodup
  rw [List.map_cons, Part.allCells_cons] at hlt
  -- the other parts have nothing to do with this one
  have hother (y : Nat) (hy : y ∈ Part.allCells (done.map Prod.snd) ++ Part.allCells (rest.map old)) :
      heap'.object? y = heap.object? y := by
    simp only [List.nodup_cons, List.nodup_append, List.mem_append, List.mem_cons] at hnodup hy hlt
    refine htouched.object? (by grind) (by grind)
  have hreplaced : (home :: (Part.allCells (done.map Prod.snd) ++
      (cells ++ Part.allCells (rest.map old)))).Nodup :=
    nodup_replace hnodup hx.nodup hx.within fun y hy => hlt y (by grind)
  constructor
  case split =>
    rw [List.map_append, List.append_assoc]
    exact h.split
  case object =>
    refine ⟨o, ho, ?_⟩
    rw [held, List.map_append, List.append_assoc]
    exact hhold
  case shapes => exact List.forall_mem_append.2 ⟨h.shapes, List.forall_mem_singleton.2 rfl⟩
  case trees => exact List.forall_mem_append.2 ⟨h.trees, List.forall_mem_singleton.2 rfl⟩
  case owns =>
    refine List.forall_mem_append.2 ⟨fun q hq => ?_, List.forall_mem_singleton.2 hx.owns⟩
    refine (h.owns q hq).congr fun y hy => hother y (List.mem_append_left _ ?_)
    exact Part.cells_subset_allCells (List.mem_map.2 ⟨q, hq, rfl⟩) hy
  case bound => exact h.bound
  case same =>
    intro y hy
    rw [hother y (List.mem_append_right _ hy)]
    exact h.same y (List.mem_append_right _ hy)
  case nodup =>
    rw [List.map_append, List.append_assoc, Part.allCells_append]
    exact hreplaced
  case within =>
    intro y hy
    rw [List.map_append, Part.allCells_append] at hy
    rcases List.mem_append.1 hy with hy | hy
    · exact h.within y hy
    · rcases hx.within y (by simpa using hy) with hin | hnew
      · exact Or.inl (h.rest_subset (List.mem_append_left _ hin))
      · exact Or.inr (Nat.le_trans h.touched.grown hnew)
  case touched =>
    refine h.touched.trans (htouched.mono fun y _ hy => ?_)
    rcases hy with rfl | hy
    · exact List.mem_cons_self
    · exact List.mem_cons_of_mem _ (h.rest_subset (List.mem_append_left _ hy))

theorem outside {x : α} (h : Visiting r f home l old hold initial heap done (x :: rest)) :
    home ∉ (old x).cells := by
  intro hmem
  refine (List.nodup_cons.1 h.nodup).1 ?_
  rw [Part.allCells_append, List.map_cons, Part.allCells_cons]
  exact List.mem_append_right _ (List.mem_append_left _ hmem)

/-- Nothing else in the object leads to where a part is that is left. -/
theorem value_ne {x : α} (h : Visiting r f home l old hold initial heap done (x :: rest))
    (hl : ∀ y ∈ l, Owns r .plain base (old y)) {address : Nat} (hx : (old x).value = .ref address) :
    ∀ e ∈ held done ++ rest.map fun y => (y, (old y).value), e.2 ≠ .ref address := by
  have hcell : address ∈ (old x).cells := (hl x (h.mem_of_rest List.mem_cons_self)).mem_cells hx
  have hnodup := h.nodup
  rw [Part.allCells_append, List.map_cons, Part.allCells_cons] at hnodup
  simp only [List.nodup_cons, List.nodup_append, List.mem_append] at hnodup
  intro e he hvalue
  rcases List.mem_append.1 he with hdone | hrest
  · obtain ⟨q, hq, rfl⟩ := List.mem_map.1 hdone
    have hmem : address ∈ Part.allCells (done.map Prod.snd) :=
      Part.cells_subset_allCells (List.mem_map.2 ⟨q, hq, rfl⟩) ((h.owns q hq).mem_cells hvalue)
    exact hnodup.2.2.2 address hmem address (Or.inl hcell) rfl
  · obtain ⟨y, hy, rfl⟩ := List.mem_map.1 hrest
    have hmem : address ∈ Part.allCells (rest.map old) :=
      Part.cells_subset_allCells (List.mem_map.2 ⟨y, hy, rfl⟩)
        ((hl y (h.mem_of_rest (List.mem_cons_of_mem _ hy))).mem_cells hvalue)
    exact hnodup.2.2.1.2.2 address hcell address hmem rfl

/-- The statements for one more part. -/
theorem turn {x : α} {this : Value} {s : State} {target : Expr} {level : Nat}
    {put : Value → Object}
    (h : Visiting prog.registry f home l old hold initial s.heap done (x :: rest))
    (hx : VisitRefines prog f base (old x))
    (hbase : ∀ y ∈ Part.allCells (l.map old), initial.object? y = base.object? y)
    (hslot : Slot prog this s (old x) level target home put)
    (hput : ∀ heap w cells, Replaces prog.registry f (old x) s.heap heap w cells →
      hold (held done ++ (x, w) :: rest.map fun y => (y, (old y).value)) (put w)) :
    ∃ heap q, Visiting prog.registry f home l old hold initial heap (done ++ [(x, q)]) rest ∧
      Executes prog this s (visitStatements target (old x).shape level) .next { s with heap } := by
  have hsame (y) (hy : y ∈ (old x).cells) : s.heap.object? y = base.object? y := by
    have hmem : y ∈ Part.allCells ((x :: rest).map old) := List.mem_append_left _ hy
    rw [h.same y hmem, hbase y (h.rest_subset hmem)]
  obtain ⟨heap, w, cells, hreplaces, htouched, hobject, hrun⟩ := hx.executes hsame hslot
  exact ⟨heap, _, h.step hreplaces htouched hobject (hput _ w _ hreplaces), hrun⟩

/-- What the statements for an element of a container do: an object is assigned through its index, and
a container is visited through a local. -/
theorem yields_element {x : α} {this position : Value} {s : State} {target : Expr}
    {counter : String} {level : Nat} {put : Value → Object}
    (h : Visiting prog.registry f home l old hold initial s.heap done (x :: rest))
    (hx : VisitRefines prog f base (old x))
    (hbase : ∀ y ∈ Part.allCells (l.map old), initial.object? y = base.object? y)
    (htarget : Stable prog this s [counter] (· ∈ home :: Part.allCells (l.map old)) target
      (.ref home))
    (hplace : Place s.heap (old x) home put)
    (hread : ∀ t : State, t.heap.object? home = s.heap.object? home →
      Yields prog (readIndex (.ref home) position) t (old x).value t)
    (hwrite : ∀ (t : State) (w : Value), t.heap.object? home = s.heap.object? home →
      Yields prog (writeIndex (.ref home) position w) t () (t.write home (put w)))
    (hput : ∀ w, hold (held done ++ (x, w) :: rest.map fun y => (y, (old y).value)) (put w)) :
    ∃ heap q, Visiting prog.registry f home l old hold initial heap (done ++ [(x, q)]) rest ∧
      Yields prog (block this [(counter, position)] (visitElement target (old x).shape counter level))
        s .next { s with heap } := by
  let t : State := s.push [(counter, position)]
  have hin : (old x).cells ⊆ Part.allCells (l.map old) := fun y hy =>
    h.rest_subset (List.mem_append_left _ hy)
  have hcounter : Stable prog this t [] (· ∈ (old x).cells) (.ident counter) position := by
    refine .localOf ?_ List.not_mem_nil
    rw [State.get?_push_cons, if_pos rfl]
  have htarget' : Stable prog this t [] (· ∈ (old x).cells) target (.ref home) :=
    (htarget.changed ((Changed.refl _ _ s).push (List.Subset.refl _))).mono (List.nil_subset _)
      fun y _ hy => List.mem_cons_of_mem _ (hin hy)
  -- the home is no object of the part, so the element can be read again while the part changes
  have hitem : Stable prog this t [] (· ∈ (old x).cells) (.index target (.ident counter))
      (old x).value :=
    htarget'.index hcounter hplace.outside hplace.holds fun u hu =>
      hread u (hu.trans hplace.holds.symm)
  by_cases hclass : ∃ name, (old x).shape = .ofClass name
  · obtain ⟨name, hname⟩ := hclass
    have hslot : Slot prog this t (old x) (level + 1) (.index target (.ident counter)) home put := {
      hplace with
      reads := by
        rw [hname]
        exact hitem
      assigns := fun _ _ w heap hheap he => yields_assignIndex htarget'.evaluates hcounter.evaluates
        he (hwrite { t with heap } w hheap) }
    obtain ⟨heap, q, hvisiting, hrun⟩ := turn (s := t) h hx hbase hslot fun _ w _ _ => hput w
    refine ⟨heap, q, hvisiting, yields_blockTo [(counter, position)] ?_ rfl⟩
    rw [hname] at hrun ⊢
    exact hrun
  · let u : State := t.push [(numbered "value" level, (old x).value)]
    have hslot : Slot prog this u (old x) (level + 1) (.ident (numbered "value" level)) home put := {
      hplace with
      reads := .localOf (by rw [State.get?_push_cons, if_pos rfl])
        (numbered_not_mem_visitLocals _ _ _)
      assigns := fun hname => absurd ⟨_, hname⟩ hclass }
    obtain ⟨heap, q, hvisiting, hrun⟩ := turn (s := u) h hx hbase hslot fun _ w _ _ => hput w
    refine ⟨heap, q, hvisiting, yields_blockTo
      [(numbered "value" level, (old x).value), (counter, position)] ?_ rfl⟩
    rw [visitElement_of_container fun name hname => hclass ⟨name, hname⟩]
    exact .next (yields_declare hitem.evaluates) hrun

theorem nodup_done (h : Visiting r f home l old hold initial heap done []) :
    (home :: Part.allCells (done.map Prod.snd)).Nodup := by
  have hnodup := h.nodup
  rwa [List.map_nil, List.append_nil] at hnodup

theorem within_done {n : Nat} (h : Visiting r f home l old hold initial heap done rest)
    (hn : n ≤ initial.length) : ∀ x ∈ home :: Part.allCells (done.map Prod.snd),
      x ∈ home :: Part.allCells (l.map old) ∨ n ≤ x := by
  intro x hx
  rcases List.mem_cons.1 hx with rfl | hx
  · exact Or.inl List.mem_cons_self
  · exact (h.within x hx).imp (List.mem_cons_of_mem _) (Nat.le_trans hn)

/-- The object when all of its parts are replaced. -/
theorem replaces {before : Heap} {shape : Shape} {tree tree' : Json}
    (h : Visiting r f home l old hold initial heap done []) (hbefore : before.length ≤ initial.length)
    (htree : (r.rewritten f tree shape).value = tree')
    (hq : Owns r .replaced heap ⟨shape, .ref home, tree',
      home :: Part.allCells (done.map Prod.snd)⟩) :
    Replaces r f ⟨shape, .ref home, tree, home :: Part.allCells (l.map old)⟩ before heap (.ref home)
      (home :: Part.allCells (done.map Prod.snd)) :=
  ⟨htree ▸ hq, h.nodup_done, h.within_done hbefore⟩

end Visiting

end

/-! ## Lists -/

section

variable {this : Value} {s : State} {target : Expr} {level address : Nat} {element : Shape}
  {parts : List Part} {initial : Heap} {done : List (Part × Part)} {rest : List Part}

/-- A list holds values in order. -/
def holdsItems (values : List (Part × Value)) (o : Object) : Prop := o = .list (values.map Prod.snd)

/-- One turn of the loop over a list. -/
theorem yields_visitItem {x : Part}
    (h : Visiting prog.registry f address parts id holdsItems initial s.heap done (x :: rest))
    (hx : VisitRefines prog f base x)
    (hbase : ∀ y ∈ Part.allCells (parts.map id), initial.object? y = base.object? y)
    (htarget : Stable prog this s [numbered "index" level]
      (· ∈ address :: Part.allCells (parts.map id)) target (.ref address)) :
    ∃ heap q, Visiting prog.registry f address parts id holdsItems initial heap
        (done ++ [(x, q)]) rest ∧
      Yields prog (block this [(numbered "index" level, .int done.length)]
        (visitElement target x.shape (numbered "index" level) level)) s .next { s with heap } := by
  obtain ⟨o, ho, rfl⟩ := h.object
  let before := (held done).map Prod.snd
  let after := rest.map Part.value
  have hlength : before.length = done.length := by simp [before, held]
  have hitems (w : Value) : ((held done ++ (x, w) :: rest.map fun y => (y, (id y).value)).map
      Prod.snd) = before ++ w :: after := by
    simp [before, after]
  have hset (w : Value) : (before ++ x.value :: after).set done.length w = before ++ w :: after := by
    rw [← hlength, List.set_append_right _ _ (Nat.le_refl _), Nat.sub_self]
    rfl
  have hget : (before ++ x.value :: after)[done.length]? = some x.value := by
    rw [← hlength, List.getElem?_append_right (Nat.le_refl _), Nat.sub_self]
    rfl
  rw [List.map_cons, hitems] at ho
  have hplace : Place s.heap x address fun w => .list (before ++ w :: after) := by
    refine ⟨ho, h.outside, fun hw => ?_⟩
    have hkeeps := Object.keeps_set hget hw
    rwa [hset] at hkeeps
  refine h.yields_element hx hbase htarget hplace (fun t ht => yields_item (ht.trans ho) hget)
    (fun t w ht => ?_) fun w => ?_
  · rw [← hset]
    exact yields_writeItem (ht.trans ho) (List.getElem?_eq_some_iff.1 hget).1 w
  · rw [holdsItems, hitems]

/-- A list keeps its length on the way. -/
theorem length_of_holdsItems {heap : Heap} {o : Object}
    (h : Visiting prog.registry f address parts id holdsItems initial heap done rest)
    (ho : heap.object? address = some o) : ∃ items, o = .list items ∧ items.length = parts.length := by
  obtain ⟨o', ho', rfl⟩ := h.object
  cases ho.symm.trans ho'
  refine ⟨_, rfl, ?_⟩
  rw [← h.split]
  simp [held]

/-- **The loop over a list.** -/
theorem yields_visitItems (hparts : ∀ q ∈ parts, q.shape = element)
    (ih : ∀ q ∈ parts, VisitRefines prog f base q)
    (hbase : ∀ y ∈ Part.allCells (parts.map id), s.heap.object? y = base.object? y)
    (hstart : Visiting prog.registry f address parts id holdsItems s.heap s.heap [] parts)
    (htarget : Stable prog this s [numbered "index" level]
      (· ∈ address :: Part.allCells (parts.map id)) target (.ref address)) :
    ∃ heap done, Visiting prog.registry f address parts id holdsItems s.heap heap done [] ∧
      Yields prog (below this (numbered "index" level) (count target)
        (visitElement target element (numbered "index" level) level) 0) s .next { s with heap } := by
  let I (i : Nat) (t : State) : Prop :=
    ∃ heap done rest, t = { s with heap } ∧ done.length = i ∧
      Visiting prog.registry f address parts id holdsItems s.heap heap done rest
  -- items are replaced but never added, so every turn finds the same bound
  have hbound (i) (t) (ht : I i t) : Evaluates prog this t (count target) (.int parts.length) := by
    obtain ⟨heap, done, rest, rfl, -, h⟩ := ht
    obtain ⟨o, ho, -⟩ := h.object
    obtain ⟨items, rfl, hlength⟩ := length_of_holdsItems h ho
    rw [← hlength]
    exact .member (htarget _ (h.touched.changed _)) (yields_count_list ho)
  have hstep (i) (t) (hi : i < parts.length) (ht : I i t) :
      ∃ u, Yields prog (block this [(numbered "index" level, .int i)]
        (visitElement target element (numbered "index" level) level)) t .next u ∧ I (i + 1) u := by
    obtain ⟨heap, done, rest, rfl, rfl, h⟩ := ht
    cases rest with
    | nil =>
      rw [← h.split] at hi
      simp at hi
    | cons x rest =>
      have hx := h.mem_of_rest List.mem_cons_self
      obtain ⟨heap', q, h', hrun⟩ := yields_visitItem (s := { s with heap }) h (ih x hx) hbase
        (htarget.changed (h.touched.changed _))
      rw [hparts x hx] at hrun
      exact ⟨_, hrun, heap', _, rest, rfl, by simp, h'⟩
  obtain ⟨t, hloop, heap, done, rest, rfl, hlength, h⟩ := below_invariant (Nat.zero_le _) hbound hstep
    ⟨s.heap, [], parts, rfl, rfl, hstart⟩
  -- as many turns as there are items leave none of them
  have hrest : rest = [] := by
    have hsplit := congrArg List.length h.split
    rw [List.length_append, List.length_map, hlength] at hsplit
    exact List.eq_nil_of_length_eq_zero (by omega)
  rw [hrest] at h
  exact ⟨heap, done, h, hloop⟩

/-- What the list stands for in the end. -/
theorem owns_of_visitedItems {heap : Heap} (hshape : ∀ q ∈ parts, q.shape = element)
    (h : Visiting prog.registry f address parts id holdsItems initial heap done []) :
    Owns prog.registry .replaced heap ⟨.array element, .ref address,
      .list ((parts.map Part.tree).map fun v => (prog.registry.rewritten f v element).value),
      address :: Part.allCells (done.map Prod.snd)⟩ := by
  have helement (q) (hq : q ∈ done) : q.1.shape = element := hshape q.1 (h.mem_of_done hq)
  have htree : (parts.map Part.tree).map (fun v => (prog.registry.rewritten f v element).value) =
      (done.map Prod.snd).map Part.tree := by
    rw [← h.eq_of_done, List.map_map, List.map_map, List.map_map]
    refine List.map_congr_left fun q hq => ((h.trees q hq).trans ?_).symm
    rw [id, helement q hq]
    rfl
  obtain ⟨o, hobject, rfl⟩ := h.object
  rw [htree]
  refine .list (done.map Prod.snd) (hobject.trans ?_) (List.forall_mem_map.2 fun q hq => ?_)
    (List.forall_mem_map.2 h.owns)
  · simp [held]
  · rw [h.shapes q hq]
    exact helement q hq

end

/-- **Lists.** -/
theorem visitRefines_list {element : Shape} {address : Nat} {parts : List Part}
    (hclass : element.containsClass = true)
    (ho : base.object? address = some (.list (parts.map Part.value)))
    (hshape : ∀ q ∈ parts, q.shape = element)
    (hd : ∀ q ∈ parts, Owns prog.registry .plain base q)
    (hnodup : (address :: Part.allCells parts).Nodup)
    (ih : ∀ q ∈ parts, VisitRefines prog f base q) :
    VisitRefines prog f base ⟨.array element, .ref address, .list (parts.map Part.tree),
      address :: Part.allCells parts⟩ := by
  have hrewrites (v) (hv : v ∈ parts.map Part.tree) : prog.registry.Rewrites f v element := by
    obtain ⟨q, hq, rfl⟩ := List.mem_map.1 hv
    exact hshape q hq ▸ (ih q hq).rewrites
  have hvisit := Registry.visitValue_array hrewrites
  have hid : Part.allCells (parts.map id) = Part.allCells parts := by rw [List.map_id]
  refine .of_inPlace (Registry.rewrites_of_eq hvisit) fun {this s target level} hbase hv => ?_
  have hsame (y) (hy : y ∈ Part.allCells (parts.map id)) : s.heap.object? y = base.object? y :=
    hbase y (List.mem_cons_of_mem _ (hid ▸ hy))
  have hstart : Visiting prog.registry f address parts id holdsItems s.heap s.heap [] parts := by
    refine .start ((hbase address List.mem_cons_self).trans ho) ?_ (fun y hy => ?_) (hid ▸ hnodup)
    · rw [holdsItems, List.map_map]
      rfl
    · exact ((Owns.list parts ho hshape hd).congr hbase).lt y (List.mem_cons_of_mem _ (hid ▸ hy))
  obtain ⟨heap, done, h, hloop⟩ := yields_visitItems hshape ih hsame hstart (hid ▸ hv)
  have hreplaces := h.replaces (Nat.le_refl _) (congrArg Visited.value (Registry.rewritten_eq hvisit))
    (owns_of_visitedItems hshape h)
  rw [hid] at hreplaces
  refine ⟨heap, _, hreplaces, hid ▸ h.touched, ?_⟩
  rw [visitStatements_array hclass]
  exact executes_unlessNull hv.evaluates rfl (fun hnull => absurd hnull Bool.false_ne_true) fun _ =>
    yields_blockTo [] (.single (yields_forBelowTo hloop)) rfl

/-! ## Dictionaries -/

section

variable {this : Value} {s : State} {target : Expr} {level address : Nat} {element : Shape}
  {parts : Fields Part} {initial : Heap} {done : List ((String × Part) × Part)} {rest : Fields Part}

/-- A dictionary holds values under keys, in order. -/
def holdsEntries (values : List ((String × Part) × Value)) (o : Object) : Prop :=
  o = .dictionary (values.map fun e => (e.1.1, e.2))

/-- One turn of the loop over the keys of a dictionary. -/
theorem yields_visitEntry {x : String × Part} (hkeys : parts.keys.Nodup)
    (h : Visiting prog.registry f address parts Prod.snd holdsEntries initial s.heap done (x :: rest))
    (hx : VisitRefines prog f base x.2)
    (hbase : ∀ y ∈ Part.allCells (parts.map Prod.snd), initial.object? y = base.object? y)
    (htarget : Stable prog this s [numbered "key" level]
      (· ∈ address :: Part.allCells (parts.map Prod.snd)) target (.ref address)) :
    ∃ heap q, Visiting prog.registry f address parts Prod.snd holdsEntries initial heap
        (done ++ [(x, q)]) rest ∧
      Yields prog (block this [(numbered "key" level, .leaf (.text x.1))]
        (visitElement target x.2.shape (numbered "key" level) level)) s .next { s with heap } := by
  obtain ⟨o, ho, rfl⟩ := h.object
  let before : Fields Value := (held done).map fun e => (e.1.1, e.2)
  let after : Fields Value := rest.map fun y => (y.1, y.2.value)
  have hentries (w : Value) : ((held done ++ (x, w) :: rest.map fun y => (y, y.2.value)).map
      fun e => (e.1.1, e.2)) = before ++ (x.1, w) :: after := by
    simp [before, after]
  have hall : (Fields.keys (before ++ (x.1, x.2.value) :: after)).Nodup := by
    rw [← h.split] at hkeys
    simpa [Fields.keys, before, after, held, Function.comp_def] using hkeys
  have hget : Fields.get? (before ++ (x.1, x.2.value) :: after) x.1 = some x.2.value :=
    Fields.get?_of_mem hall (List.mem_append_right _ List.mem_cons_self)
  have hinsert (w : Value) : Fields.insert (before ++ (x.1, x.2.value) :: after) x.1 w =
      before ++ (x.1, w) :: after := by
    have hfresh : x.1 ∉ Fields.keys before := by
      rw [Fields.keys, List.map_append, List.nodup_append] at hall
      exact fun hmem => hall.2.2 x.1 hmem x.1 List.mem_cons_self rfl
    rw [Fields.insert_append hfresh, Fields.insert, if_pos rfl]
  rw [List.map_cons, hentries] at ho
  have hplace : Place s.heap x.2 address fun w => .dictionary (before ++ (x.1, w) :: after) := by
    refine ⟨ho, h.outside, fun hw => ?_⟩
    have hkeeps := Object.keeps_insertEntry hget hw
    rwa [hinsert] at hkeeps
  refine h.yields_element hx hbase htarget hplace (fun t ht => yields_entry (ht.trans ho) hget)
    (fun t w ht => ?_) fun w => ?_
  · rw [← hinsert]
    exact yields_writeEntry (ht.trans ho) x.1 w
  · rw [holdsEntries, hentries]

/-- **The loop over the keys of a dictionary.** They lie in a list of their own, to which nothing is
written. -/
theorem yields_visitEntries {n : Nat} {cell : Cell} (hkeys : parts.keys.Nodup)
    (hparts : ∀ q ∈ parts, q.2.shape = element)
    (ih : ∀ q ∈ parts, VisitRefines prog f base q.2)
    (hbase : ∀ y ∈ Part.allCells (parts.map Prod.snd), s.heap.object? y = base.object? y)
    (hstart : Visiting prog.registry f address parts Prod.snd holdsEntries s.heap s.heap [] parts)
    (htarget : Stable prog this s [numbered "key" level]
      (· ∈ address :: Part.allCells (parts.map Prod.snd)) target (.ref address))
    (hcell : s.heap[n]? = some cell) (hn : n ∉ address :: Part.allCells (parts.map Prod.snd)) :
    ∃ heap done, Visiting prog.registry f address parts Prod.snd holdsEntries s.heap heap done [] ∧
      Yields prog (each this (numbered "key" level)
        (visitElement target element (numbered "key" level) level) (.ref n) cell.writes
        (parts.map fun e => .leaf (.text e.1))) s .next { s with heap } := by
  let I (rest : Fields Part) (t : State) : Prop :=
    ∃ heap done, t = { s with heap } ∧
      Visiting prog.registry f address parts Prod.snd holdsEntries s.heap heap done rest
  have hwrites (rest) (t) (ht : I rest t) : Yields prog (writes (.ref n)) t cell.writes t := by
    obtain ⟨heap, done, rfl, h⟩ := ht
    exact yields_writesOf ((h.touched.objects n (List.getElem?_eq_some_iff.1 hcell).1 hn).trans hcell)
  have hstep (x) (rest) (t) (hx : x ∈ parts) (ht : I (x :: rest) t) :
      ∃ u, Yields prog (block this [(numbered "key" level, .leaf (.text x.1))]
        (visitElement target element (numbered "key" level) level)) t .next u ∧ I rest u := by
    obtain ⟨heap, done, rfl, h⟩ := ht
    obtain ⟨heap', q, h', hrun⟩ := yields_visitEntry (s := { s with heap }) hkeys h (ih x hx) hbase
      (htarget.changed (h.touched.changed _))
    rw [hparts x hx] at hrun
    exact ⟨_, hrun, heap', _, rfl, h'⟩
  obtain ⟨t, hloop, heap, done, rfl, h⟩ := each_invariant hwrites hstep ⟨s.heap, [], rfl, hstart⟩
  exact ⟨heap, done, h, hloop⟩

/-- What the dictionary stands for in the end. -/
theorem owns_of_visitedEntries {heap : Heap} (hkeys : parts.keys.Nodup)
    (hshape : ∀ q ∈ parts, q.2.shape = element)
    (h : Visiting prog.registry f address parts Prod.snd holdsEntries initial heap done []) :
    Owns prog.registry .replaced heap ⟨.map element, .ref address,
      .object (Fields.mapValues (fun v => (prog.registry.rewritten f v element).value)
        (parts.mapValues Part.tree)), address :: Part.allCells (done.map Prod.snd)⟩ := by
  -- the parts under their keys
  let replaced : Fields Part := done.map fun q => (q.1.1, q.2)
  have hrow : replaced.map Prod.snd = done.map Prod.snd := by
    rw [List.map_map]
    rfl
  have helement (q) (hq : q ∈ done) : q.1.2.shape = element := hshape q.1 (h.mem_of_done hq)
  have htree : Fields.mapValues (fun v => (prog.registry.rewritten f v element).value)
      (parts.mapValues Part.tree) = replaced.mapValues Part.tree := by
    rw [← h.eq_of_done]
    simp only [Fields.mapValues, List.map_map, replaced]
    refine List.map_congr_left fun q hq => Prod.ext rfl ((h.trees q hq).trans ?_).symm
    rw [helement q hq]
    rfl
  obtain ⟨o, hobject, rfl⟩ := h.object
  rw [htree, ← hrow]
  refine .map replaced ?_ (hobject.trans ?_) (List.forall_mem_map.2 fun q hq => ?_)
    (List.forall_mem_map.2 h.owns)
  · rw [← h.eq_of_done, Fields.keys, List.map_map] at hkeys
    rwa [Fields.keys, List.map_map]
  · simp [held, replaced, Fields.mapValues]
  · rw [h.shapes q hq]
    exact helement q hq

end

/-- **Maps.** -/
theorem visitRefines_map {element : Shape} {address : Nat} {parts : Fields Part}
    (hclass : element.containsClass = true) (hkeys : parts.keys.Nodup)
    (ho : base.object? address = some (.dictionary (parts.mapValues Part.value)))
    (hshape : ∀ q ∈ parts, q.2.shape = element)
    (hd : ∀ q ∈ parts, Owns prog.registry .plain base q.2)
    (hnodup : (address :: Part.allCells (parts.map Prod.snd)).Nodup)
    (ih : ∀ q ∈ parts, VisitRefines prog f base q.2) :
    VisitRefines prog f base ⟨.map element, .ref address, .object (parts.mapValues Part.tree),
      address :: Part.allCells (parts.map Prod.snd)⟩ := by
  have hrewrites (e) (he : e ∈ parts.mapValues Part.tree) : prog.registry.Rewrites f e.2 element := by
    obtain ⟨q, hq, rfl⟩ := List.mem_map.1 he
    exact hshape q hq ▸ (ih q hq).rewrites
  have hvisit := Registry.visitValue_map hrewrites
  refine .of_inPlace (Registry.rewrites_of_eq hvisit) fun {this s target level} hbase hv => ?_
  have ho' := (hbase address List.mem_cons_self).trans ho
  have hlt := ((Owns.map parts hkeys ho hshape hd).congr hbase).lt
  -- the list of the keys lies behind everything else
  let keys : Cell := ⟨.list ((parts.mapValues Part.value).map fun e => .leaf (.text e.1)), 0⟩
  let t : State := s.grow [keys]
  have hgrown (cells : Nat → Prop) : Touched cells s.heap t.heap := .append _ _ _
  have hcell : t.heap[s.heap.length]? = some keys := List.getElem?_concat_length
  have hfresh : s.heap.length ∉ address :: Part.allCells (parts.map Prod.snd) :=
    fun hmem => absurd (hlt _ hmem) (Nat.lt_irrefl _)
  have hsame (y) (hy : y ∈ Part.allCells (parts.map Prod.snd)) :
      t.heap.object? y = base.object? y := by
    have hmem := List.mem_cons_of_mem address hy
    rw [(hgrown fun _ => False).object? (hlt y hmem) not_false, hbase y hmem]
  have hstart : Visiting prog.registry f address parts Prod.snd holdsEntries t.heap t.heap []
      parts := by
    refine .start (Heap.object?_append ho' _) ?_ (fun y hy => ?_) hnodup
    · rw [holdsEntries, List.map_map]
      rfl
    · exact Nat.lt_of_lt_of_le (hlt y (List.mem_cons_of_mem _ hy)) (hgrown fun _ => False).grown
  obtain ⟨heap, done, h, hloop⟩ := yields_visitEntries hkeys hshape ih hsame hstart
    (hv.changed ((hgrown _).changed _)) hcell hfresh
  have hkeyList : (parts.mapValues Part.value).map (fun e => Value.leaf (.text e.1)) =
      parts.map fun e => .leaf (.text e.1) := by
    rw [Fields.mapValues, List.map_map]
    rfl
  have helements : Yields prog (elements (.ref s.heap.length)) t
      (parts.map fun e => .leaf (.text e.1)) t := by
    rw [← hkeyList]
    exact yields_listElements (Heap.object?_append_singleton _ _)
  have hreplaces := h.replaces (hgrown fun _ => False).grown
    (congrArg Visited.value (Registry.rewritten_eq hvisit)) (owns_of_visitedEntries hkeys hshape h)
  refine ⟨heap, _, hreplaces, (hgrown _).trans h.touched, ?_⟩
  rw [visitStatements_map hclass]
  exact executes_unlessNull hv.evaluates rfl (fun hnull => absurd hnull Bool.false_ne_true) fun _ =>
    yields_blockTo [] (.single (yields_forEachTo (yields_keyList hv.evaluates ho')
      (yields_writesOf hcell) helements hloop)) rfl

end Classwright.Machine
