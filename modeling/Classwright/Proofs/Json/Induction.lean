import Classwright.Json.Walk

/-!
# Induction over values

A value nests lists of values and lists of fields, so the recursor that comes with `Json` speaks of
four types at once. `Json.ind` speaks of values only: the hypotheses for a list and for an object
cover what they hold. Every law of a walk is proved with it.

The module also says what it means that a value repeats no key. Objects are plain lists of fields,
and texts are read through `Json.collapse`, which leaves one field per key
(`distinctKeys_collapse`); the laws that look fields up by key need exactly that.
-/

namespace Classwright

namespace Json

/-! ### The induction principle -/

section

variable {motive : Json → Prop} (null : motive .null) (bool : ∀ b, motive (.bool b))
  (number : ∀ n, motive (.number n)) (text : ∀ s, motive (.text s))
  (list : ∀ items, (∀ v ∈ items, motive v) → motive (.list items))
  (object : ∀ fields, (∀ f ∈ fields, motive f.2) → motive (.object fields))

include null bool number text list object

/-- **Induction over values**, with hypotheses for the items of a list and the values of fields. -/
@[elab_as_elim, induction_eliminator]
theorem ind (v : Json) : motive v := by
  refine @Json.rec motive (fun items => ∀ v ∈ items, motive v)
    (fun fields => ∀ f ∈ fields, motive f.2) (fun f => motive f.2) null bool number text list object ?_ ?_ ?_ ?_ ?_ v
  · intro v hv
    cases hv
  · intro head tail hhead htail v hv
    rcases List.mem_cons.1 hv with rfl | hv
    · exact hhead
    · exact htail v hv
  · intro f hf
    cases hf
  · intro head tail hhead htail f hf
    rcases List.mem_cons.1 hf with rfl | hf
    · exact hhead
    · exact htail f hf
  · intro key v hv
    exact hv

end

end Json

/-! ### Fields and their keys -/

namespace Fields

variable {α β : Type}

/-- Changes the values and keeps the keys. -/
def mapValues (f : α → β) (fields : Fields α) : Fields β := fields.map fun (key, v) => (key, f v)

@[simp] theorem mapValues_cons (f : α → β) (field : String × α) (rest : Fields α) :
    mapValues f (field :: rest) = (field.1, f field.2) :: mapValues f rest := rfl

theorem length_mapValues (f : α → β) (fields : Fields α) :
    (mapValues f fields).length = fields.length :=
  List.length_map _

@[simp] theorem keys_mapValues (f : α → β) (fields : Fields α) :
    (mapValues f fields).keys = fields.keys := by
  simp [mapValues, keys]

@[simp] theorem keys_nil : keys ([] : Fields α) = [] := rfl

@[simp] theorem keys_cons (field : String × α) (rest : Fields α) :
    keys (field :: rest) = field.1 :: keys rest := rfl

@[simp] theorem get?_nil (key : String) : get? ([] : Fields α) key = none := rfl

theorem get?_cons (k key : String) (v : α) (rest : Fields α) :
    get? ((k, v) :: rest) key = if key = k then some v else get? rest key := by
  unfold get?
  rw [List.lookup_cons]
  by_cases h : key = k
  · simp [h]
  · rw [if_neg h, beq_eq_false_iff_ne.2 h]

theorem get?_cons_self (key : String) (v : α) (rest : Fields α) :
    get? ((key, v) :: rest) key = some v := by
  rw [get?_cons, if_pos rfl]

@[simp] theorem get?_mapValues (f : α → β) (fields : Fields α) (key : String) :
    get? (mapValues f fields) key = (get? fields key).map f := by
  induction fields with
  | nil => rfl
  | cons field rest ih =>
    rw [mapValues_cons, get?_cons, get?_cons, ih]
    split
    · rfl
    · rfl

/-- Where no key occurs twice, a field is what its key leads to. -/
theorem get?_of_mem {fields : Fields α} (hd : fields.keys.Nodup) {key : String} {v : α}
    (h : (key, v) ∈ fields) : get? fields key = some v := by
  induction fields with
  | nil => cases h
  | cons field rest ih =>
    obtain ⟨k, w⟩ := field
    rw [keys_cons, List.nodup_cons] at hd
    rw [get?_cons]
    rcases List.mem_cons.1 h with heq | hmem
    · cases heq
      rw [if_pos rfl]
    · have hne : key ≠ k := by
        rintro rfl
        exact hd.1 (List.mem_map.2 ⟨_, hmem, rfl⟩)
      rw [if_neg hne]
      exact ih hd.2 hmem

theorem keys_insert (fields : Fields α) (key : String) (v : α) :
    (insert fields key v).keys =
      if key ∈ fields.keys then fields.keys else fields.keys ++ [key] := by
  induction fields with
  | nil => rfl
  | cons field rest ih =>
    obtain ⟨k, w⟩ := field
    by_cases h : k = key
    · subst h
      simp [insert]
    · have hne : ¬ key = k := fun e => h e.symm
      rw [insert, if_neg h, keys_cons, keys_cons, ih]
      simp only [List.mem_cons, hne, false_or]
      split
      · rfl
      · rw [List.cons_append]

theorem insert_append {fields : Fields α} {key : String} (h : key ∉ fields.keys) (rest : Fields α)
    (v : α) : insert (fields ++ rest) key v = fields ++ insert rest key v := by
  induction fields with
  | nil => rfl
  | cons field fields ih =>
    rw [keys_cons, List.mem_cons, not_or] at h
    rw [List.cons_append, insert, if_neg (Ne.symm h.1), ih h.2, List.cons_append]

theorem insert_of_not_mem {fields : Fields α} {key : String} (h : key ∉ fields.keys) (v : α) :
    insert fields key v = fields ++ [(key, v)] := by
  have happend := insert_append h [] v
  rwa [List.append_nil] at happend

theorem get?_insert (fields : Fields α) (key : String) (v : α) (key' : String) :
    get? (insert fields key v) key' = if key' = key then some v else get? fields key' := by
  induction fields with
  | nil => rw [insert, get?_cons]
  | cons field rest ih =>
    obtain ⟨k, w⟩ := field
    rw [insert]
    split
    · next h =>
      subst h
      rw [get?_cons, get?_cons]
      split
      · rfl
      · rfl
    · next h =>
      rw [get?_cons, get?_cons, ih]
      by_cases hk : key' = k
      · rw [if_pos hk, if_pos hk, if_neg fun he => h (hk.symm.trans he)]
      · rw [if_neg hk, if_neg hk]

theorem mem_keys_of_get? {fields : Fields α} {key : String} {v : α} (h : get? fields key = some v) :
    key ∈ fields.keys :=
  List.mem_map.2 ⟨_, mem_of_get? h, rfl⟩

theorem get?_eq_none {fields : Fields α} {key : String} (h : key ∉ fields.keys) :
    get? fields key = none := by
  cases hget : get? fields key with
  | none => rfl
  | some v => exact absurd (mem_keys_of_get? hget) h

/-- The keys are those under which something is found. -/
theorem mem_keys_iff {fields : Fields α} {key : String} :
    key ∈ fields.keys ↔ ∃ v, get? fields key = some v := by
  refine ⟨fun h => ?_, fun ⟨_, h⟩ => mem_keys_of_get? h⟩
  induction fields with
  | nil => cases h
  | cons field rest ih =>
    rw [get?_cons]
    split
    · exact ⟨_, rfl⟩
    · next hne => exact ih ((List.mem_cons.1 h).resolve_left hne)

theorem contains_eq (fields : Fields α) (key : String) :
    contains fields key = (get? fields key).isSome := by
  induction fields with
  | nil => rfl
  | cons field rest ih =>
    rw [contains, List.any_cons, show rest.any _ = contains rest key from rfl, ih, get?_cons]
    by_cases h : key = field.1
    · simp [h]
    · rw [if_neg h, beq_false_of_ne (Ne.symm h), Bool.false_or]

theorem length_insert_of_get? {fields : Fields α} {key : String} {old : α}
    (h : get? fields key = some old) (v : α) : (insert fields key v).length = fields.length := by
  have hkeys := congrArg List.length (keys_insert fields key v)
  rw [if_pos (mem_keys_of_get? h)] at hkeys
  simpa [keys] using hkeys

/-- Putting a value where it is changes nothing. -/
theorem insert_self {fields : Fields α} {key : String} {v : α} (h : get? fields key = some v) :
    insert fields key v = fields := by
  induction fields with
  | nil => cases h
  | cons field rest ih =>
    obtain ⟨k, w⟩ := field
    rw [get?_cons] at h
    rw [insert]
    by_cases hk : key = k
    · rw [if_pos hk] at h
      rw [if_pos hk.symm, hk, Option.some.inj h]
    · rw [if_neg hk] at h
      rw [if_neg (Ne.symm hk), ih h]

/-- The last value that is put under a key counts. -/
theorem insert_insert (fields : Fields α) (key : String) (v w : α) :
    insert (insert fields key v) key w = insert fields key w := by
  induction fields with
  | nil => simp [insert]
  | cons field rest ih =>
    obtain ⟨k, x⟩ := field
    by_cases hk : k = key
    · simp [insert, hk]
    · simp [insert, hk, ih]

theorem nodup_keys_insert {fields : Fields α} (hd : fields.keys.Nodup) (key : String) (v : α) :
    (insert fields key v).keys.Nodup := by
  rw [keys_insert]
  split
  · exact hd
  · next h => exact List.nodup_append.2 ⟨hd, by simp, by rintro a ha b hb rfl; simp_all⟩

/-- A collapsed list of fields has one field per key. -/
theorem nodup_keys_collapse (fields : Fields α) : (collapse fields).keys.Nodup := by
  -- the fold only inserts, so the fields that are done never repeat a key
  suffices h : ∀ done : Fields α, done.keys.Nodup →
      (fields.foldl (fun done (f : String × α) => insert done f.1 f.2) done).keys.Nodup from
    h [] List.nodup_nil
  induction fields with
  | nil => exact fun done hd => hd
  | cons field rest ih => exact fun done hd => ih _ (nodup_keys_insert hd _ _)

theorem mem_insert {fields : Fields α} {key : String} {v : α} {f : String × α}
    (h : f ∈ insert fields key v) : f = (key, v) ∨ f ∈ fields := by
  induction fields with
  | nil => exact Or.inl (List.mem_singleton.1 h)
  | cons field rest ih =>
    obtain ⟨k, w⟩ := field
    rw [insert] at h
    split at h
    · rcases List.mem_cons.1 h with h | h
      · exact Or.inl h
      · exact Or.inr (List.mem_cons_of_mem _ h)
    · rcases List.mem_cons.1 h with h | h
      · exact Or.inr (List.mem_cons.2 (Or.inl h))
      · exact (ih h).imp_right (List.mem_cons_of_mem _)

/-- Collapsing invents no field. -/
theorem mem_of_mem_collapse {fields : Fields α} {f : String × α} (h : f ∈ collapse fields) :
    f ∈ fields := by
  suffices hs : ∀ done : Fields α,
      f ∈ fields.foldl (fun done (f : String × α) => insert done f.1 f.2) done →
      f ∈ done ∨ f ∈ fields from
    (hs [] h).resolve_left (by simp)
  clear h
  induction fields with
  | nil => exact fun done hf => Or.inl hf
  | cons field rest ih =>
    intro done hf
    rcases ih _ hf with h | h
    · rcases mem_insert h with rfl | h
      · exact Or.inr List.mem_cons_self
      · exact Or.inl h
    · exact Or.inr (List.mem_cons_of_mem _ h)

end Fields

/-! ### Walks in one equation -/

namespace Json

variable {β : Type}

/-- The items of a list, and of nothing else. -/
def items : Json → List Json
  | list items => items
  | _ => []

/-- The fields of an object, and of nothing else. -/
def fields : Json → Fields Json
  | object fields => fields
  | _ => []

theorem walkFields_eq_mapValues (step : Json → List β → Fields β → β)
    (fields : List (String × Json)) : walkFields step fields = Fields.mapValues (walk step) fields :=
  walkFields_eq_map step fields

/-- A walk takes one step from the results for what a value holds. -/
theorem walk_eq (step : Json → List β → Fields β → β) (v : Json) :
    walk step v = step v (v.items.map (walk step)) (Fields.mapValues (walk step) v.fields) := by
  cases v with
  | list items => rw [walk, walkItems_eq_map]; rfl
  | object fields => rw [walk, walkFields_eq_mapValues]; rfl
  | null => rfl
  | bool b => rfl
  | number n => rfl
  | text s => rfl

theorem part_eq (v : Json) (key : String) : v.part key = (Fields.get? v.fields key).getD null := by
  cases v <;> rfl

/-- The result under a key, or that for `null`, is the result for the part of that key. -/
theorem getD_get?_walk (step : Json → List β → Fields β → β) (v : Json) (key : String) :
    (Fields.get? (Fields.mapValues (walk step) v.fields) key).getD (walk step null) =
      walk step (v.part key) := by
  rw [Fields.get?_mapValues, part_eq]
  cases Fields.get? v.fields key with
  | none => rfl
  | some w => rfl

/-- **Induction over what a value holds**, for laws that treat all kinds of values alike. A part is a
field or `null`, and `null` has parts that are no smaller, so the hypothesis for parts is there for
all other values. -/
@[elab_as_elim]
theorem ind_parts {motive : Json → Prop}
    (step : ∀ v, (∀ x ∈ v.items, motive x) → (∀ f ∈ v.fields, motive f.2) →
      (v.isNull = false → ∀ key, motive (v.part key)) → motive v) (v : Json) : motive v := by
  have hnull : motive null := step null nofun nofun nofun
  have hpart (v : Json) (h : ∀ f ∈ v.fields, motive f.2) (key : String) : motive (v.part key) := by
    rw [part_eq]
    cases hf : Fields.get? v.fields key with
    | none => exact hnull
    | some w => exact h _ (Fields.mem_of_get? hf)
  induction v with
  | null => exact hnull
  | bool b => exact step _ nofun nofun fun _ => hpart _ nofun
  | number n => exact step _ nofun nofun fun _ => hpart _ nofun
  | text s => exact step _ nofun nofun fun _ => hpart _ nofun
  | list items ih => exact step _ ih nofun fun _ => hpart _ nofun
  | object fields ih => exact step _ nofun ih fun _ => hpart _ ih

theorem eq_null_of_isNull {v : Json} (h : v.isNull = true) : v = null := by
  cases v with
  | null => rfl
  | _ => cases h

end Json

/-! ### Values that repeat no key -/

namespace Json

/-- One step of `distinctKeys`. -/
def distinctStep (_ : Json) (items : List Bool) (fields : Fields Bool) : Bool :=
  items.all id && fields.all Prod.snd && decide fields.keys.Nodup

/-- Whether no object in a value repeats a key, at any depth. -/
def distinctKeys : Json → Bool := walk distinctStep

theorem distinctKeys_list {items : List Json} :
    (list items).distinctKeys = true ↔ ∀ v ∈ items, v.distinctKeys = true := by
  rw [show (list items).distinctKeys = distinctStep (list items) (walkItems distinctStep items) []
      from rfl, walkItems_eq_map]
  simp [distinctStep, Fields.keys, distinctKeys]

theorem distinctKeys_object {fields : List (String × Json)} :
    (object fields).distinctKeys = true ↔
      (Fields.keys fields).Nodup ∧ ∀ f ∈ fields, f.2.distinctKeys = true := by
  rw [show (object fields).distinctKeys = distinctStep (object fields) []
      (walkFields distinctStep fields) from rfl, walkFields_eq_mapValues, distinctStep,
    Fields.keys_mapValues]
  simp only [List.all_nil, Bool.true_and, Bool.and_eq_true, decide_eq_true_eq, List.all_eq_true,
    Fields.mapValues, List.mem_map]
  constructor
  · rintro ⟨hv, hk⟩
    exact ⟨hk, fun f hf => hv _ ⟨f, hf, rfl⟩⟩
  · rintro ⟨hk, hv⟩
    refine ⟨?_, hk⟩
    rintro _ ⟨f, hf, rfl⟩
    exact hv f hf

theorem distinctKeys_fields {v : Json} (hv : v.distinctKeys = true) :
    v.fields.keys.Nodup ∧ ∀ f ∈ v.fields, f.2.distinctKeys = true := by
  cases v with
  | object fields => exact distinctKeys_object.1 hv
  | _ => exact ⟨List.nodup_nil, fun f hf => absurd hf List.not_mem_nil⟩

/-- What a value holds under a key repeats no key if the value does not. -/
theorem distinctKeys_part {v : Json} (hv : v.distinctKeys = true) (key : String) :
    (v.part key).distinctKeys = true := by
  cases v with
  | object fields =>
    rw [show (object fields).part key = (Fields.get? fields key).getD null from rfl]
    cases hf : Fields.get? fields key with
    | none => rfl
    | some w => exact (distinctKeys_object.1 hv).2 _ (Fields.mem_of_get? hf)
  | null => rfl
  | bool b => rfl
  | number n => rfl
  | text s => rfl
  | list items => rfl

theorem collapseItems_eq_map (items : List Json) : collapseItems items = items.map collapse := by
  induction items with
  | nil => rfl
  | cons v rest ih => rw [collapseItems, ih, List.map_cons]

theorem collapseFields_eq_mapValues (fields : List (String × Json)) :
    collapseFields fields = Fields.mapValues collapse fields := by
  induction fields with
  | nil => rfl
  | cons field rest ih =>
    obtain ⟨key, v⟩ := field
    rw [collapseFields, ih, Fields.mapValues_cons]

/-- **What is read repeats no key.** Texts are read through `collapse`. -/
theorem distinctKeys_collapse (v : Json) : v.collapse.distinctKeys = true := by
  induction v with
  | null => rfl
  | bool b => rfl
  | number n => rfl
  | text s => rfl
  | list items ih =>
    rw [collapse, distinctKeys_list, collapseItems_eq_map]
    intro w hw
    obtain ⟨v, hv, rfl⟩ := List.mem_map.1 hw
    exact ih v hv
  | object fields ih =>
    rw [collapse, distinctKeys_object, collapseFields_eq_mapValues]
    refine ⟨Fields.nodup_keys_collapse _, fun g hg => ?_⟩
    obtain ⟨f, hf, rfl⟩ := List.mem_map.1 (Fields.mem_of_mem_collapse hg)
    exact ih f hf

end Json

end Classwright
