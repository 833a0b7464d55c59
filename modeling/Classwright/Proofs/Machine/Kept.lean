import Classwright.Proofs.Machine.Owned

/-!
# What stays in its place

A visitor replaces objects and leaves everything else where it is: lists stay the lists that they are
and keep their length, dictionaries keep their keys and the order of them.

* **`Heap.isFixed`** — the values that stay where they are: all but references to instances.
* **`Heap.Keeps`** — every object stays what it is, up to values that are not fixed. This composes
  (`Heap.Keeps.trans`), because a fixed value remains one.
* **`Touched`** is what code did to a heap that keeps its objects and writes to some of them only.
  It is `Changed` for code that leaves the locals as they were.
-/

namespace Classwright

/-- A value under a key that is there goes to its place. -/
theorem Fields.exists_insert_eq {α : Type} {fields : Fields α} {key : String} {v : α}
    (h : fields.get? key = some v) :
    ∃ before after, fields = before ++ (key, v) :: after ∧
      ∀ w, fields.insert key w = before ++ (key, w) :: after := by
  obtain ⟨before, after, rfl, hne⟩ := List.lookup_eq_some_iff.1 h
  refine ⟨before, after, rfl, fun w => ?_⟩
  have hfresh : key ∉ Fields.keys before := by
    intro hmem
    obtain ⟨e, he, rfl⟩ := List.mem_map.1 hmem
    exact absurd (hne e he) (by simp)
  rw [insert_append hfresh, insert, if_pos rfl]

namespace Machine

/-! ## Objects -/

namespace Object

/-- An object without what it holds. -/
def outline : Object → Object
  | .instanceOf className properties => .instanceOf className (properties.mapValues fun _ => .null)
  | .list items => .list (items.map fun _ => .null)
  | .dictionary entries => .dictionary (entries.mapValues fun _ => .null)

/-- Whether an object is no instance of a class. -/
def isContainer : Object → Bool
  | .instanceOf .. => false
  | .list _ | .dictionary _ => true

theorem isContainer_outline (o : Object) : o.outline.isContainer = o.isContainer := by
  cases o <;> rfl

/-- What an object holds, in order. -/
def values : Object → List Value
  | .instanceOf _ properties => properties.map Prod.snd
  | .list items => items
  | .dictionary entries => entries.map Prod.snd

end Object

/-- Whether a value stays where it is: all but references to instances do. -/
def Heap.isFixed (heap : Heap) : Value → Bool
  | .ref address => (heap.object? address).any Object.isContainer
  | _ => true

/-- An object stays what it is, and so do the fixed values in it. -/
structure Object.Keeps (heap : Heap) (o o' : Object) : Prop where
  outline : o'.outline = o.outline
  fixed : ∀ (i : Nat) v, o.values[i]? = some v → heap.isFixed v = true → o'.values[i]? = some v

/-- Every object stays, and so do the fixed values in it. -/
def Heap.Keeps (heap heap' : Heap) : Prop :=
  ∀ address o, heap.object? address = some o →
    ∃ o', heap'.object? address = some o' ∧ o.Keeps heap o'

namespace Object

variable {heap heap' : Heap}

theorem Keeps.refl (heap : Heap) (o : Object) : o.Keeps heap o := ⟨rfl, fun _ _ h _ => h⟩

/-- One value changes, if it is not fixed. -/
theorem Keeps.of_values {o o' : Object} {before after : List Value} {v w : Value}
    (hv : o.values = before ++ v :: after) (hw : o'.values = before ++ w :: after)
    (houtline : o'.outline = o.outline) (h : heap.isFixed v = true → w = v) : o.Keeps heap o' := by
  refine ⟨houtline, fun i u hi hu => ?_⟩
  rw [hv] at hi
  rw [hw]
  rcases Nat.lt_trichotomy i before.length with hlt | rfl | hgt
  · rwa [List.getElem?_append_left hlt] at hi ⊢
  · rw [List.getElem?_append_right (Nat.le_refl _), Nat.sub_self] at hi ⊢
    cases hi
    rw [h hu]
    rfl
  · obtain ⟨k, rfl⟩ := Nat.exists_eq_add_of_lt hgt
    rw [List.getElem?_append_right (by omega),
      show before.length + k + 1 - before.length = k + 1 by omega] at hi ⊢
    exact hi

theorem keeps_set {items : List Value} {i : Nat} {v w : Value} (hv : items[i]? = some v)
    (h : heap.isFixed v = true → w = v) : (list items).Keeps heap (list (items.set i w)) := by
  obtain ⟨hi, hget⟩ := List.getElem?_eq_some_iff.1 hv
  have hsplit : items = items.take i ++ v :: items.drop (i + 1) := by
    rw [← hget, List.getElem_cons_drop, List.take_append_drop]
  refine .of_values hsplit (List.set_eq_take_append_cons_drop.trans (if_pos hi)) ?_ h
  simp only [outline, List.map_const', List.length_set]

theorem keeps_insertProperty {className name : String} {properties : Fields Value} {v w : Value}
    (hv : properties.get? name = some v) (h : heap.isFixed v = true → w = v) :
    (instanceOf className properties).Keeps heap
      (instanceOf className (properties.insert name w)) := by
  obtain ⟨before, after, rfl, hinsert⟩ := Fields.exists_insert_eq hv
  rw [hinsert]
  refine .of_values List.map_append List.map_append ?_ h
  simp only [outline, Fields.mapValues, List.map_append, List.map_cons]

theorem keeps_insertEntry {key : String} {entries : Fields Value} {v w : Value}
    (hv : entries.get? key = some v) (h : heap.isFixed v = true → w = v) :
    (dictionary entries).Keeps heap (dictionary (entries.insert key w)) := by
  obtain ⟨before, after, rfl, hinsert⟩ := Fields.exists_insert_eq hv
  rw [hinsert]
  refine .of_values List.map_append List.map_append ?_ h
  simp only [outline, Fields.mapValues, List.map_append, List.map_cons]

end Object

/-! ## Heaps -/

section

variable {heap heap' heap'' : Heap}

/-- A fixed value remains one. -/
theorem Heap.Keeps.isFixed (h : heap.Keeps heap') {v : Value} (hv : heap.isFixed v = true) :
    heap'.isFixed v = true := by
  cases v with
  | ref address =>
    rw [Heap.isFixed, Option.any_eq_true] at hv ⊢
    obtain ⟨o, ho, hcontainer⟩ := hv
    obtain ⟨o', ho', hkeeps⟩ := h address o ho
    refine ⟨o', ho', ?_⟩
    rw [← Object.isContainer_outline, hkeeps.outline, Object.isContainer_outline, hcontainer]
  | _ => rfl

theorem Heap.Keeps.refl (heap : Heap) : heap.Keeps heap :=
  fun _ o ho => ⟨o, ho, .refl heap o⟩

theorem Heap.Keeps.trans (h : heap.Keeps heap') (h' : heap'.Keeps heap'') : heap.Keeps heap'' := by
  intro address o ho
  obtain ⟨o', ho', houtline, hfixed⟩ := h address o ho
  obtain ⟨o'', ho'', houtline', hfixed'⟩ := h' address o' ho'
  exact ⟨o'', ho'', houtline'.trans houtline,
    fun i v hi hv => hfixed' i v (hfixed i v hi hv) (h.isFixed hv)⟩

/-- New objects change nothing. -/
theorem Heap.Keeps.append (heap ext : Heap) : heap.Keeps (heap ++ ext) :=
  fun _ o ho => ⟨o, Heap.object?_append ho ext, .refl heap o⟩

end

/-- A heap after objects at the given addresses were written to, but no more than `Heap.Keeps` allows,
and new objects were added. -/
structure Touched (cells : Nat → Prop) (heap heap' : Heap) : Prop where
  objects (address : Nat) (h : address < heap.length) (hc : ¬ cells address) :
    heap'[address]? = heap[address]?
  grown : heap.length ≤ heap'.length
  kept : heap.Keeps heap'

namespace Touched

variable {cells cells' : Nat → Prop} {heap heap' heap'' : Heap}

theorem refl (cells : Nat → Prop) (heap : Heap) : Touched cells heap heap :=
  ⟨fun _ _ _ => rfl, Nat.le_refl _, .refl heap⟩

theorem trans (h : Touched cells heap heap') (h' : Touched cells heap' heap'') :
    Touched cells heap heap'' where
  objects address ha hc :=
    (h'.objects address (Nat.lt_of_lt_of_le ha h.grown) hc).trans (h.objects address ha hc)
  grown := Nat.le_trans h.grown h'.grown
  kept := h.kept.trans h'.kept

theorem mono (h : Touched cells heap heap')
    (hc : ∀ address, address < heap.length → cells address → cells' address) :
    Touched cells' heap heap' where
  objects address ha hcell := h.objects address ha fun hmem => hcell (hc address ha hmem)
  grown := h.grown
  kept := h.kept

theorem object? (h : Touched cells heap heap') {address : Nat} (ha : address < heap.length)
    (hc : ¬ cells address) : heap'.object? address = heap.object? address := by
  rw [Heap.object?, h.objects address ha hc]
  rfl

theorem append (cells : Nat → Prop) (heap ext : Heap) : Touched cells heap (heap ++ ext) where
  objects _ ha _ := List.getElem?_append_left ha
  grown := (List.prefix_append heap ext).length_le
  kept := .append heap ext

/-- A write to an object that keeps it. -/
theorem write {s : State} {address : Nat} {o o' : Object} (ho : s.heap.object? address = some o)
    (hkeeps : o.Keeps s.heap o') (hc : cells address) :
    Touched cells s.heap (s.write address o').heap where
  objects x hx hcell := by
    have hne : address ≠ x := fun he => hcell (he ▸ hc)
    simp [State.write, hne]
  grown := by simp [State.write]
  kept x p hp := by
    rw [State.object?_write s (Heap.lt_of_object? ho)]
    by_cases hx : x = address
    · cases hx
      cases hp.symm.trans ho
      exact ⟨o', if_pos rfl, hkeeps⟩
    · exact ⟨p, (if_neg hx).trans hp, .refl _ p⟩

theorem changed {s : State} (h : Touched cells s.heap heap') (names : List String) :
    Changed names cells s { s with heap := heap' } :=
  ⟨fun _ _ => rfl, h.objects, h.grown⟩

end Touched

end Machine

end Classwright
