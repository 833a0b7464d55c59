import Mathlib.Data.List.Nodup
import Classwright.Proofs.Instance.Copy
import Classwright.Proofs.Machine.Trees
import Classwright.Proofs.Machine.Updates

/-!
# Trees without sharing

`Denotes` says which tree a value stands for and lets objects be shared. Code that writes to the heap
needs to know which objects belong to a tree: what is written elsewhere does not change it, and trees
without a common object do not change each other.

* **`Part`** is a value with its tree and the addresses of all its objects, **`Owns`** says that they
  belong together. An address is listed as often as it is reached, so a list without repetitions is a
  tree without sharing.
* **`Owns.congr`** — a tree depends on its own objects only.
* **`Row`** — trees side by side that share nothing, at addresses from some number on. Rows are what
  containers hold and what loops over containers build up.
* **`exists_owns`** lays out every well-typed tree in a heap, without sharing.
-/

namespace Classwright.Machine

variable {r : Registry} {heap heap' : Heap}

/-! ## What belongs to a tree -/

/-- What is asked of a tree besides its types. -/
inductive Form where
  /-- Nothing more. Objects may hold more than their properties. -/
  | plain
  /-- Objects hold those of their properties that are not `null`, in order, and nothing else. -/
  | exact
  /-- Nothing more, and in the place of an object there may be anything. -/
  | replaced
deriving DecidableEq

/-- A value, the tree that it stands for, and the addresses of the objects in it. -/
structure Part where
  shape : Shape
  value : Value
  tree : Json
  cells : List Nat

/-- The addresses of several parts. -/
def Part.allCells (row : List Part) : List Nat := row.flatMap Part.cells

@[simp] theorem Part.allCells_nil : allCells [] = [] := rfl

@[simp] theorem Part.allCells_cons (q : Part) (row : List Part) :
    allCells (q :: row) = q.cells ++ allCells row := rfl

@[simp] theorem Part.allCells_append (row row' : List Part) :
    allCells (row ++ row') = allCells row ++ allCells row' :=
  List.flatMap_append

theorem Part.cells_subset_allCells {q : Part} {row : List Part} (h : q ∈ row) :
    q.cells ⊆ allCells row :=
  fun _ hx => List.mem_flatMap.2 ⟨q, h, hx⟩

/-- What an object holds is known from its parts. -/
def held {α : Type} (parts : List (α × Part)) : List (α × Value) :=
  parts.map fun q => (q.1, q.2.value)

/-- A value stands for a tree whose objects lie at the given addresses. -/
inductive Owns (r : Registry) (form : Form) (heap : Heap) : Part → Prop where
  | null {shape : Shape} (h : shape.isReferenceType = true) :
      Owns r form heap ⟨shape, .null, .null, []⟩
  | scalar {p : Primitive} {a : Json} (h : p.accepts a = true) :
      Owns r form heap ⟨.scalar p, .leaf a, a, []⟩
  | foreign {name : String} {a : Json} (hform : form = .replaced) (ha : a.isNull = false) :
      Owns r form heap ⟨.ofClass name, .leaf a, a, []⟩
  | object {name : String} {c : ClassModel} {address : Nat} {properties : Fields Value}
      {fields : List (String × Json)} (parts : List (Property × Part)) (hc : r.get? name = some c)
      (hparts : parts.map Prod.fst = c.properties)
      (ho : heap.object? address = some (.instanceOf name properties))
      (hshape : ∀ q ∈ parts, q.2.shape = q.1.shape)
      (htree : ∀ q ∈ parts, q.2.tree = (Json.object fields).part q.1.jsonName)
      (hvalue : ∀ q ∈ parts, properties.get? q.1.name = some q.2.value)
      (hd : ∀ q ∈ parts, Owns r form heap q.2)
      (hform : form = .exact → fields = c.shown fun p => (Json.object fields).part p.jsonName) :
      Owns r form heap ⟨.ofClass name, .ref address, .object fields,
        address :: Part.allCells (parts.map Prod.snd)⟩
  | list {element : Shape} {address : Nat} (parts : List Part)
      (ho : heap.object? address = some (.list (parts.map Part.value)))
      (hshape : ∀ q ∈ parts, q.shape = element) (hd : ∀ q ∈ parts, Owns r form heap q) :
      Owns r form heap ⟨.array element, .ref address, .list (parts.map Part.tree),
        address :: Part.allCells parts⟩
  | map {element : Shape} {address : Nat} (parts : Fields Part) (hk : parts.keys.Nodup)
      (ho : heap.object? address = some (.dictionary (parts.mapValues Part.value)))
      (hshape : ∀ q ∈ parts, q.2.shape = element) (hd : ∀ q ∈ parts, Owns r form heap q.2) :
      Owns r form heap ⟨.map element, .ref address, .object (parts.mapValues Part.tree),
        address :: Part.allCells (parts.map Prod.snd)⟩

namespace Owns

variable {form form' : Form} {q : Part}

/-- **A tree depends on its own objects only.** -/
theorem congr (h : Owns r form heap q)
    (hsame : ∀ x ∈ q.cells, heap'.object? x = heap.object? x) : Owns r form heap' q := by
  induction h with
  | null h => exact .null h
  | scalar h => exact .scalar h
  | foreign hform ha => exact .foreign hform ha
  | object parts hc hparts ho hshape htree hvalue _ hform ih =>
    refine .object parts hc hparts ((hsame _ List.mem_cons_self).trans ho) hshape htree hvalue
      (fun q hq => ih q hq fun x hx => hsame x (List.mem_cons_of_mem _ ?_)) hform
    exact Part.cells_subset_allCells (List.mem_map.2 ⟨q, hq, rfl⟩) hx
  | list parts ho hshape _ ih =>
    refine .list parts ((hsame _ List.mem_cons_self).trans ho) hshape
      fun q hq => ih q hq fun x hx => hsame x (List.mem_cons_of_mem _ ?_)
    exact Part.cells_subset_allCells hq hx
  | map parts hk ho hshape _ ih =>
    refine .map parts hk ((hsame _ List.mem_cons_self).trans ho) hshape
      fun q hq => ih q hq fun x hx => hsame x (List.mem_cons_of_mem _ ?_)
    exact Part.cells_subset_allCells (List.mem_map.2 ⟨q, hq, rfl⟩) hx

theorem lt (h : Owns r form heap q) : ∀ x ∈ q.cells, x < heap.length := by
  -- over rows of trees, for the three kinds of objects that hold others
  have hrow {address : Nat} {o : Object} {row : List Part} (ho : heap.object? address = some o)
      (ih : ∀ q ∈ row, ∀ x ∈ q.cells, x < heap.length) :
      ∀ x ∈ address :: Part.allCells row, x < heap.length := by
    intro x hx
    rcases List.mem_cons.1 hx with rfl | hx
    · exact Heap.lt_of_object? ho
    · obtain ⟨q, hq, hx⟩ := List.mem_flatMap.1 hx
      exact ih q hq x hx
  induction h with
  | null h => exact fun x hx => absurd hx List.not_mem_nil
  | scalar h => exact fun x hx => absurd hx List.not_mem_nil
  | foreign hform ha => exact fun x hx => absurd hx List.not_mem_nil
  | object parts _ _ ho _ _ _ _ _ ih =>
    refine hrow ho fun q hq => ?_
    obtain ⟨e, he, rfl⟩ := List.mem_map.1 hq
    exact ih e he
  | list parts ho _ _ ih => exact hrow ho ih
  | map parts _ ho _ _ ih =>
    refine hrow ho fun q hq => ?_
    obtain ⟨e, he, rfl⟩ := List.mem_map.1 hq
    exact ih e he

/-- A form that asks for less. -/
theorem weaken (h : Owns r form heap q) (hr : form = .replaced → form' = .replaced)
    (he : form' = .exact → form = .exact) : Owns r form' heap q := by
  induction h with
  | null h => exact .null h
  | scalar h => exact .scalar h
  | foreign hform ha => exact .foreign (hr hform) ha
  | object parts hc hparts ho hshape htree hvalue _ hform ih =>
    exact .object parts hc hparts ho hshape htree hvalue ih fun h => hform (he h)
  | list parts ho hshape _ ih => exact .list parts ho hshape ih
  | map parts hk ho hshape _ ih => exact .map parts hk ho hshape ih

theorem value_eq_null (h : Owns r form heap q) (ht : q.tree = .null) : q.value = .null := by
  cases h with
  | null _ => rfl
  | @scalar p a ha =>
    rw [show a = .null from ht] at ha
    cases p <;> cases ha
  | @foreign name a _ ha =>
    rw [show a = .null from ht] at ha
    cases ha
  | _ => cases ht

/-- What a value leads to belongs to its tree. -/
theorem mem_cells (h : Owns r form heap q) {address : Nat} (hv : q.value = .ref address) :
    address ∈ q.cells := by
  cases h with
  | null _ => cases hv
  | scalar _ => cases hv
  | foreign _ _ => cases hv
  | object _ _ _ _ _ _ _ _ _ => exact Value.ref.inj hv ▸ List.mem_cons_self
  | list _ _ _ _ => exact Value.ref.inj hv ▸ List.mem_cons_self
  | map _ _ _ _ _ => exact Value.ref.inj hv ▸ List.mem_cons_self

/-- Forgets what belongs to a tree. -/
theorem denotes (h : Owns r form heap q) (hform : form ≠ .replaced) :
    Denotes r heap q.shape q.value q.tree := by
  induction h with
  | null h => exact .null h
  | scalar h => exact .scalar h
  | foreign h _ => exact absurd h hform
  | @object name c address properties fields parts hc hparts ho hshape htree hvalue _ _ ih =>
    have hpart (p) (hp : p ∈ c.properties) : ∃ q, (p, q) ∈ parts := by
      rw [← hparts] at hp
      obtain ⟨q, hq, rfl⟩ := List.mem_map.1 hp
      exact ⟨q.2, hq⟩
    refine .object (fun p => (properties.get? p.name).getD .null) hc ho (fun p hp => ?_)
      (fun p hp => ?_)
    · obtain ⟨q, hq⟩ := hpart p hp
      rw [hvalue _ hq]
      rfl
    · obtain ⟨q, hq⟩ := hpart p hp
      rw [hvalue _ hq, ← hshape _ hq, ← htree _ hq]
      exact ih _ hq
  | list parts ho hshape _ ih =>
    have hlist := Denotes.list (r := r) (parts.map fun q => (q.value, q.tree))
      (ho.trans (by rw [List.map_map]; rfl)) fun e he => by
        obtain ⟨q, hq, rfl⟩ := List.mem_map.1 he
        exact hshape q hq ▸ ih q hq
    rw [List.map_map] at hlist
    exact hlist
  | map parts hk ho hshape _ ih =>
    have hmap := Denotes.map (r := r) (parts.mapValues fun q => (q.value, q.tree))
      (by rwa [Fields.keys_mapValues]) (ho.trans (by simp [Fields.mapValues])) fun e he => by
        obtain ⟨q, hq, rfl⟩ := List.mem_map.1 he
        exact hshape q hq ▸ ih q hq
    rw [show (parts.mapValues fun q => (q.value, q.tree)).mapValues Prod.snd =
      parts.mapValues Part.tree by simp [Fields.mapValues]] at hmap
    exact hmap

end Owns

/-! ## Trees side by side -/

/-- Trees that share nothing, at addresses from `n` on. -/
structure Row (r : Registry) (form : Form) (n : Nat) (heap : Heap) (row : List Part) : Prop where
  owns : ∀ q ∈ row, Owns r form heap q
  nodup : (Part.allCells row).Nodup
  above : ∀ x ∈ Part.allCells row, n ≤ x

theorem Heap.object?_append_of_lt {x : Nat} (h : x < heap.length) (ext : Heap) :
    object? (heap ++ ext) x = object? heap x := by
  unfold object?
  rw [List.getElem?_append_left h]

namespace Row

variable {form : Form} {n m d : Nat} {row row' : List Part}

theorem nil : Row r form n heap [] :=
  ⟨fun _ hq => absurd hq List.not_mem_nil, List.nodup_nil, fun _ hx => absurd hx List.not_mem_nil⟩

theorem lt (h : Row r form n heap row) : ∀ x ∈ Part.allCells row, x < heap.length := by
  intro x hx
  obtain ⟨q, hq, hx⟩ := List.mem_flatMap.1 hx
  exact (h.owns q hq).lt x hx

theorem congr (h : Row r form n heap row)
    (hsame : ∀ x ∈ Part.allCells row, heap'.object? x = heap.object? x) :
    Row r form n heap' row :=
  ⟨fun q hq => (h.owns q hq).congr fun x hx => hsame x (Part.cells_subset_allCells hq hx), h.nodup,
    h.above⟩

theorem mono (h : Row r form n heap row) (hm : m ≤ n) : Row r form m heap row :=
  ⟨h.owns, h.nodup, fun x hx => Nat.le_trans hm (h.above x hx)⟩

/-- Trees at higher addresses share nothing with those below. -/
theorem append (h : Row r form n heap row) (h' : Row r form m heap row') (hn : n ≤ m)
    (hbelow : ∀ x ∈ Part.allCells row, x < m) : Row r form n heap (row ++ row') := by
  refine ⟨fun q hq => ?_, ?_, fun x hx => ?_⟩
  · rcases List.mem_append.1 hq with hq | hq
    · exact h.owns q hq
    · exact h'.owns q hq
  · rw [Part.allCells_append, List.nodup_append]
    refine ⟨h.nodup, h'.nodup, fun x hx y hy he => ?_⟩
    have hlt := hbelow x hx
    have hge := h'.above y hy
    omega
  · rw [Part.allCells_append] at hx
    rcases List.mem_append.1 hx with hx | hx
    · exact h.above x hx
    · exact Nat.le_trans hn (h'.above x hx)

/-- A tree in new objects is added to a row, and at the same time an object below the row changes. -/
theorem snoc {q : Part} {grown : Heap} (h : Row r form (d + 1) heap row) (hd : d < heap.length)
    (hq : Row r form heap.length grown [q])
    (hgrown : ∀ x, x < heap.length → grown.object? x = heap.object? x)
    (hsame : ∀ x, x ≠ d → heap'.object? x = grown.object? x) :
    Row r form (d + 1) heap' (row ++ [q]) := by
  have hrow : Row r form (d + 1) heap' row := h.congr fun x hx => by
    have hx' := h.above x hx
    rw [hsame x (by omega), hgrown x (h.lt x hx)]
  have hnew : Row r form heap.length heap' [q] := hq.congr fun x hx => by
    have hx' := hq.above x hx
    exact hsame x (by omega)
  exact hrow.append hnew hd h.lt

theorem singleton_iff {q : Part} :
    Row r form n heap [q] ↔ Owns r form heap q ∧ q.cells.Nodup ∧ ∀ x ∈ q.cells, n ≤ x := by
  have hcells : Part.allCells [q] = q.cells := List.append_nil _
  constructor
  · rintro ⟨howns, hnodup, habove⟩
    rw [hcells] at hnodup habove
    exact ⟨howns q List.mem_cons_self, hnodup, habove⟩
  · rintro ⟨howns, hnodup, habove⟩
    refine ⟨List.forall_mem_singleton.2 howns, ?_, ?_⟩
    · rwa [hcells]
    · rwa [hcells]

/-- Values without objects. -/
theorem leaf {q : Part} (hq : Owns r form heap q) (hcells : q.cells = []) :
    Row r form n heap [q] := by
  rw [singleton_iff, hcells]
  exact ⟨hq, List.nodup_nil, fun x hx => absurd hx List.not_mem_nil⟩

/-- An object that is none of the row holds it. -/
theorem single {q : Part} (h : Row r form n heap row) (hq : Owns r form heap q)
    (hcells : q.cells = d :: Part.allCells row) (hd : n ≤ d) (hfresh : d ∉ Part.allCells row) :
    Row r form n heap [q] := by
  rw [singleton_iff, hcells, List.nodup_cons, List.forall_mem_cons]
  exact ⟨hq, ⟨hfresh, h.nodup⟩, hd, h.above⟩

/-- A row keeps its objects when the heap grows. -/
theorem grow (h : Row r form n heap row) (ext : Heap) : Row r form n (heap ++ ext) row :=
  h.congr fun x hx => Heap.object?_append_of_lt (h.lt x hx) ext

end Row

/-! ## Every well-typed tree lies in some heap -/

/-- Lays out trees one after another. -/
theorem exists_row {α : Type} (shape : α → Shape) (tree : α → Json) {l : List α}
    (h : ∀ x ∈ l, ∀ heap : Heap, ∃ ext v cells,
      Row r .plain heap.length (heap ++ ext) [⟨shape x, v, tree x, cells⟩]) (heap : Heap) :
    ∃ (ext : Heap) (parts : List (α × Part)), parts.map Prod.fst = l ∧
      (∀ q ∈ parts, q.2.shape = shape q.1 ∧ q.2.tree = tree q.1) ∧
      Row r .plain heap.length (heap ++ ext) (parts.map Prod.snd) := by
  induction l generalizing heap with
  | nil => exact ⟨[], [], rfl, fun _ hq => absurd hq List.not_mem_nil, .nil⟩
  | cons x l ih =>
    obtain ⟨ext, v, cells, hx⟩ := h x List.mem_cons_self heap
    obtain ⟨ext', parts, rfl, hparts, hrow⟩ :=
      ih (fun y hy => h y (List.mem_cons_of_mem _ hy)) (heap ++ ext)
    rw [List.append_assoc] at hrow
    have hfirst := hx.grow ext'
    rw [List.append_assoc] at hfirst
    refine ⟨ext ++ ext', (x, ⟨shape x, v, tree x, cells⟩) :: parts, rfl,
      List.forall_mem_cons.2 ⟨⟨rfl, rfl⟩, hparts⟩, ?_⟩
    exact hfirst.append hrow (by simp) hx.lt

/-- An object goes after all that it holds. -/
theorem Row.addObject {n : Nat} {ext : Heap} {row : List Part} {o : Object} {shape : Shape}
    {tree : Json} (h : Row r .plain n (heap ++ ext) row) (hn : n ≤ heap.length)
    (hq : (∀ q ∈ row, Owns r .plain (heap ++ ext ++ [⟨o, 0⟩]) q) →
      Owns r .plain (heap ++ ext ++ [⟨o, 0⟩])
        ⟨shape, .ref (heap ++ ext).length, tree, (heap ++ ext).length :: Part.allCells row⟩) :
    ∃ ext v cells, Row r .plain n (heap ++ ext) [⟨shape, v, tree, cells⟩] := by
  have hgrown := h.grow [⟨o, 0⟩]
  refine ⟨ext ++ [⟨o, 0⟩], .ref (heap ++ ext).length, (heap ++ ext).length :: Part.allCells row, ?_⟩
  rw [← List.append_assoc]
  refine hgrown.single (hq hgrown.owns) rfl ?_ fun hmem => absurd (h.lt _ hmem) (Nat.lt_irrefl _)
  rw [List.length_append]
  exact Nat.le_add_right_of_le hn

/-- **Every well-typed tree can be laid out without sharing**, after whatever a heap holds already.
This is where the properties of a class need different names. -/
theorem exists_owns {a : Json} {shape : Shape}
    (hn : ∀ d, r.Reaches shape d → (d.properties.map Property.name).Nodup)
    (h : r.fits a shape = true) (heap : Heap) :
    ∃ ext v cells, Row r .plain heap.length (heap ++ ext) [⟨shape, v, a, cells⟩] := by
  induction a using Json.ind_parts generalizing shape heap with
  | step a items fields parts =>
    cases ha : a.isNull with
    | true =>
      cases Json.eq_null_of_isNull ha
      exact ⟨[], .null, [], .leaf (.null (Registry.fits_null shape ▸ h)) rfl⟩
    | false =>
      cases shape with
      | scalar p => exact ⟨[], .leaf a, [], .leaf (.scalar (Registry.fits_scalar ha p ▸ h)) rfl⟩
      | ofClass name =>
        obtain ⟨fs, c, rfl, hc, hp⟩ := Registry.fits_class ha h
        obtain ⟨ext, row, hprops, hd, hrow⟩ := exists_row Property.shape
          (fun p => (Json.object fs).part p.jsonName)
          (fun p hmem heap => parts ha p.jsonName (fun d hd => hn d (.there rfl hc hmem hd))
            (hp p hmem) heap) heap
        let properties : Fields Value := row.map fun q => (q.1.name, q.2.value)
        -- no two properties share a name, so each one finds its own value
        have hkeys : properties.keys.Nodup := by
          have hnames := hn c (.here rfl hc)
          rw [← hprops, List.map_map] at hnames
          rwa [Fields.keys, List.map_map]
        refine hrow.addObject (o := .instanceOf name properties) (Nat.le_refl _) fun howns => ?_
        exact .object row hc hprops (Heap.object?_append_singleton _ _) (fun q hq => (hd q hq).1)
          (fun q hq => (hd q hq).2)
          (fun q hq => Fields.get?_of_mem hkeys (List.mem_map.2 ⟨q, hq, rfl⟩))
          (fun q hq => howns _ (List.mem_map.2 ⟨q, hq, rfl⟩)) fun hform => absurd hform (by decide)
      | array element =>
        obtain ⟨xs, rfl, hx⟩ := Registry.fits_array ha h
        obtain ⟨ext, row, rfl, hd, hrow⟩ := exists_row (fun _ => element) id
          (fun x hmem heap => items x hmem (fun d hd => hn d hd.array) (hx x hmem) heap) heap
        have htrees : row.map Prod.fst = (row.map Prod.snd).map Part.tree := by
          rw [List.map_map]
          exact List.map_congr_left fun q hq => (hd q hq).2.symm
        rw [htrees]
        refine hrow.addObject (Nat.le_refl _) fun howns =>
          .list (row.map Prod.snd) (Heap.object?_append_singleton _ _) (fun q hq => ?_) howns
        obtain ⟨e, he, rfl⟩ := List.mem_map.1 hq
        exact (hd e he).1
      | map element =>
        obtain ⟨fs, rfl, hk, hf⟩ := Registry.fits_map ha h
        obtain ⟨ext, row, rfl, hd, hrow⟩ := exists_row (fun _ => element) Prod.snd
          (fun f hmem heap => fields f hmem (fun d hd => hn d hd.map) (hf f hmem) heap) heap
        let entries : Fields Part := row.map fun q => (q.1.1, q.2)
        have htrees : row.map Prod.fst = entries.mapValues Part.tree := by
          rw [Fields.mapValues, List.map_map]
          exact List.map_congr_left fun q hq => Prod.ext rfl (hd q hq).2.symm
        have hrow' : row.map Prod.snd = entries.map Prod.snd := by
          rw [List.map_map]
          rfl
        rw [htrees] at hk ⊢
        rw [Fields.keys_mapValues] at hk
        rw [hrow'] at hrow
        refine hrow.addObject (Nat.le_refl _) fun howns =>
          .map entries hk (Heap.object?_append_singleton _ _) (fun q hq => ?_)
            fun q hq => howns _ (List.mem_map.2 ⟨q, hq, rfl⟩)
        obtain ⟨e, he, rfl⟩ := List.mem_map.1 hq
        exact (hd e he).1

/-- Every well-typed tree can be laid out. -/
theorem exists_denotes {a : Json} {shape : Shape}
    (hn : ∀ d, r.Reaches shape d → (d.properties.map Property.name).Nodup)
    (h : r.fits a shape = true) (heap : Heap) : ∃ ext v, Denotes r (heap ++ ext) shape v a := by
  obtain ⟨ext, v, cells, hrow⟩ := exists_owns hn h heap
  exact ⟨ext, v, (hrow.owns _ List.mem_cons_self).denotes (by decide)⟩

end Classwright.Machine
