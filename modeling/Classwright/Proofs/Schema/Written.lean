import Classwright.Proofs.Json.RoundTrip
import Classwright.Schema.Printer
import Classwright.Schema.Reader

/-!
# A schema and its fields

A schema is written field by field and read field by field, with a draft that gets one field after
another. Both sides are said here in terms of single fields: the value that is written for a field
(`Schema.given`), and a draft that takes a field over from a schema (`Schema.put`). A field that is
not written has its default, so a draft that takes over the written fields becomes the schema.

* **`toJson_eq`** — the value of a schema has the fields that are given, in the order of the record.
* **`written_ind`** — induction along these fields, from the empty draft to the schema.
* **`shaped_toJson_iff`** — what holds of the value of a schema holds of the values of its fields.
-/

namespace Classwright

/-! ## Values of a shape -/

namespace Json

/-- Values that repeat no key and nest to a given depth at most. -/
structure Shaped (depth : Nat) (v : Json) : Prop where
  distinct : v.distinctKeys = true
  nested : v.nesting ≤ depth

theorem Shaped.succ {depth : Nat} {v : Json} (h : Shaped depth v) : Shaped (depth + 1) v :=
  ⟨h.distinct, Nat.le_succ_of_le h.nested⟩

theorem shaped_text (depth : Nat) (s : String) : Shaped depth (text s) := ⟨rfl, Nat.zero_le _⟩

theorem shaped_bool (depth : Nat) (b : Bool) : Shaped depth (bool b) := ⟨rfl, Nat.zero_le _⟩

theorem shaped_list {depth : Nat} {items : List Json} :
    Shaped (depth + 1) (list items) ↔ ∀ v ∈ items, Shaped depth v := by
  constructor
  · intro h v hv
    exact ⟨distinctKeys_list.1 h.distinct v hv, nesting_list.1 h.nested v hv⟩
  · intro h
    exact ⟨distinctKeys_list.2 fun v hv => (h v hv).distinct, nesting_list.2 fun v hv => (h v hv).nested⟩

theorem shaped_object {depth : Nat} {fields : Fields Json} :
    Shaped (depth + 1) (object fields) ↔ fields.keys.Nodup ∧ ∀ f ∈ fields, Shaped depth f.2 := by
  constructor
  · intro h
    obtain ⟨hkeys, hvalues⟩ := distinctKeys_object.1 h.distinct
    exact ⟨hkeys, fun f hf => ⟨hvalues f hf, nesting_object.1 h.nested f hf⟩⟩
  · rintro ⟨hkeys, h⟩
    exact ⟨distinctKeys_object.2 ⟨hkeys, fun f hf => (h f hf).distinct⟩,
      nesting_object.2 fun f hf => (h f hf).nested⟩

theorem not_shaped_list_zero {items : List Json} : ¬ Shaped 0 (list items) := fun h => nomatch h.nested

theorem not_shaped_object_zero {fields : Fields Json} : ¬ Shaped 0 (object fields) :=
  fun h => nomatch h.nested

end Json

namespace Schema

open Json

/-! ## Single fields -/

/-- Named schemas as a value, unless there are none. -/
def namedValue (named : Fields Schema) : Option Json :=
  if (namedToJson named).isEmpty then none else some (.object (namedToJson named))

/-- The value that is written for a field, if any. -/
def given (s : Schema) : SchemaField → Option Json
  | .title => s.title.map .text
  | .description => s.description.map .text
  | .type => s.type.map TypeChoice.toJson
  | .properties => namedValue s.properties
  | .required => if s.required.isEmpty then none else some (.list (s.required.map .text))
  | .items => optionToJson s.items
  | .additionalProperties => additionalToJson s.additionalProperties
  | .definitions => namedValue s.definitions
  | .reference => s.reference.map .text
  | .enumeration => s.enumeration.map .list
  | .format => s.format.map .text

/-- A draft that takes over a field of a schema. -/
def put (s : Schema) (field : SchemaField) (draft : Schema) : Schema :=
  match field with
  | .title => { draft with title := s.title }
  | .description => { draft with description := s.description }
  | .type => { draft with type := s.type }
  | .properties => { draft with properties := s.properties }
  | .required => { draft with required := s.required }
  | .items => { draft with items := s.items }
  | .additionalProperties => { draft with additionalProperties := s.additionalProperties }
  | .definitions => { draft with definitions := s.definitions }
  | .reference => { draft with reference := s.reference }
  | .enumeration => { draft with enumeration := s.enumeration }
  | .format => { draft with format := s.format }

theorem put_comm {f g : SchemaField} (h : f ≠ g) (s s' draft : Schema) :
    put s f (put s' g draft) = put s' g (put s f draft) := by
  cases f <;> cases g <;> first | rfl | exact absurd rfl h

theorem given_put_self (s : Schema) (f : SchemaField) (draft : Schema) :
    (put s f draft).given f = s.given f := by
  cases f <;> rfl

theorem given_put_of_ne {f g : SchemaField} (h : f ≠ g) (s draft : Schema) :
    (put s f draft).given g = draft.given g := by
  cases f <;> cases g <;> first | rfl | exact absurd rfl h

theorem namedValue_eq_none_iff {named : Fields Schema} : namedValue named = none ↔ named = [] := by
  cases named with
  | nil => exact ⟨fun _ => rfl, fun _ => rfl⟩
  | cons d rest => exact ⟨fun h => (nomatch h), fun h => (nomatch h)⟩

theorem optionToJson_eq_none_iff {s : Option Schema} : optionToJson s = none ↔ s = none := by
  cases s with
  | none => exact ⟨fun _ => rfl, fun _ => rfl⟩
  | some s => exact ⟨fun h => (nomatch h), fun h => (nomatch h)⟩

theorem additionalToJson_eq_none_iff {a : Option (Additional Schema)} :
    additionalToJson a = none ↔ a = none := by
  rcases a with _ | (b | s)
  · exact ⟨fun _ => rfl, fun _ => rfl⟩
  · exact ⟨fun h => (nomatch h), fun h => (nomatch h)⟩
  · exact ⟨fun h => (nomatch h), fun h => (nomatch h)⟩

/-- A field that is not written has its default. -/
theorem put_of_given_eq_none {s : Schema} {f : SchemaField} (h : s.given f = none) (draft : Schema) :
    put s f draft = put {} f draft := by
  cases f with
  | title | description | type | reference | enumeration | format =>
    rw [put, Option.map_eq_none_iff.1 h]
    rfl
  | properties | definitions =>
    rw [put, namedValue_eq_none_iff.1 h]
    rfl
  | required =>
    have hrequired : s.required = [] := by simpa [given] using h
    rw [put, hrequired]
    rfl
  | items =>
    have hitems : s.items = none := optionToJson_eq_none_iff.1 h
    rw [put, hitems]
    rfl
  | additionalProperties =>
    have hadditional : s.additionalProperties = none := additionalToJson_eq_none_iff.1 h
    rw [put, hadditional]
    rfl

/-! ## All fields -/

/-- The fields that are written of those in a list. -/
def written (s : Schema) (fields : Fields SchemaField) : Fields Json :=
  fields.filterMap fun f => (s.given f.2).map (f.1, ·)

theorem written_nil (s : Schema) : s.written [] = [] := rfl

theorem written_cons (s : Schema) (f : String × SchemaField) (fields : Fields SchemaField) :
    s.written (f :: fields) = optionalField f.1 (s.given f.2) ++ s.written fields := by
  unfold written
  rw [List.filterMap_cons]
  cases s.given f.2 with
  | none => rfl
  | some v => rfl

theorem objectField_eq (key : String) (named : Fields Schema) :
    objectField key (namedToJson named) = optionalField key (namedValue named) := by
  unfold objectField namedValue
  split
  · rfl
  · rfl

theorem toJson_eq (s : Schema) : s.toJson = .object (s.written record.fields) := by
  have hrequired : (if s.required.isEmpty then [] else [("required", .list (s.required.map .text))]) =
      optionalField "required" (s.given .required) := by
    unfold given
    split
    · rfl
    · rfl
  obtain ⟨title, description, type, properties, required, items, additional, definitions, reference,
    enumeration, format⟩ := s
  simp only at hrequired
  rw [toJson, hrequired, objectField_eq, objectField_eq]
  simp only [record, written_cons, written_nil, List.append_assoc, List.append_nil]
  rfl

/-- **Induction along the written fields.** `Q seen draft fields` speaks of what is left to read: the
fields seen so far, the draft they gave, and the fields that follow. -/
theorem written_ind {Q : Fields SchemaField → Schema → Fields Json → Prop} (s : Schema)
    (done : ∀ seen, Q seen s [])
    (step : ∀ (seen : Fields SchemaField) key field v draft rest,
      record.fields.get? key = some field → key ∉ seen.keys → field ∉ seen.map Prod.snd →
      s.given field = some v →
      Q ((key, field) :: seen) (put s field draft) rest → Q seen draft ((key, v) :: rest)) :
    Q [] {} (s.written record.fields) := by
  -- what is left of the record is unseen, and the draft has defaults there
  suffices h : ∀ (fields seen : Fields SchemaField) (draft : Schema), fields.keys.Nodup →
      (fields.map Prod.snd).Nodup → fields.foldl (fun draft f => put s f.2 draft) draft = s →
      (∀ f ∈ fields, record.fields.get? f.1 = some f.2 ∧ f.1 ∉ seen.keys ∧
        f.2 ∉ seen.map Prod.snd ∧ put {} f.2 draft = draft) → Q seen draft (s.written fields) by
    have hlast : record.fields.foldl (fun draft f => put s f.2 draft) {} = s := by
      cases s
      rfl
    refine h record.fields [] {} (by decide) (by decide) hlast fun f hf => ⟨?_, by simp, by simp, ?_⟩
    · exact Fields.get?_of_mem (by decide) hf
    · cases f.2 <;> rfl
  intro fields
  induction fields with
  | nil =>
    intro seen draft _ _ hlast _
    rw [show draft = s from hlast]
    exact done seen
  | cons f fields ih =>
    intro seen draft hkeys hfields hlast hrest
    rw [Fields.keys_cons, List.nodup_cons] at hkeys
    rw [List.map_cons, List.nodup_cons] at hfields
    rw [List.foldl_cons] at hlast
    obtain ⟨hget, hkey, hfield, hdefault⟩ := hrest f List.mem_cons_self
    rw [written_cons]
    cases hgiven : s.given f.2 with
    | none =>
      rw [put_of_given_eq_none hgiven, hdefault] at hlast
      exact ih seen draft hkeys.2 hfields.2 hlast fun g hg => hrest g (List.mem_cons_of_mem _ hg)
    | some v =>
      refine step seen f.1 f.2 v draft _ hget hkey hfield hgiven ?_
      refine ih (f :: seen) (put s f.2 draft) hkeys.2 hfields.2 hlast fun g hg => ?_
      obtain ⟨hget', hkey', hfield', hdefault'⟩ := hrest g (List.mem_cons_of_mem _ hg)
      have hnekey : g.1 ≠ f.1 := fun heq => hkeys.1 (heq ▸ List.mem_map_of_mem hg)
      have hnefield : g.2 ≠ f.2 := fun heq => hfields.1 (heq ▸ List.mem_map_of_mem hg)
      refine ⟨hget', ?_, ?_, ?_⟩
      · rw [Fields.keys_cons, List.mem_cons, not_or]
        exact ⟨hnekey, hkey'⟩
      · rw [List.map_cons, List.mem_cons, not_or]
        exact ⟨hnefield, hfield'⟩
      · rw [put_comm hnefield, hdefault']

theorem mem_written {s : Schema} {fields : Fields SchemaField} {f : String × Json} :
    f ∈ s.written fields ↔ ∃ g ∈ fields, g.1 = f.1 ∧ s.given g.2 = some f.2 := by
  unfold written
  rw [List.mem_filterMap]
  refine exists_congr fun g => and_congr_right fun _ => ?_
  rw [Option.map_eq_some_iff]
  constructor
  · rintro ⟨v, hgiven, rfl⟩
    exact ⟨rfl, hgiven⟩
  · rintro ⟨hkey, hgiven⟩
    exact ⟨f.2, hgiven, Prod.ext hkey rfl⟩

theorem mem_record (field : SchemaField) : ∃ g ∈ record.fields, g.2 = field := by
  cases field <;> decide

/-- The keys of the written fields are keys of the record, in its order. -/
theorem keys_written_sublist (s : Schema) (fields : Fields SchemaField) :
    (s.written fields).keys.Sublist fields.keys := by
  induction fields with
  | nil => exact List.Sublist.refl _
  | cons f fields ih =>
    rw [written_cons]
    cases s.given f.2 with
    | none => exact ih.cons _
    | some v => exact ih.cons_cons _

theorem forall_written_iff {s : Schema} {P : Json → Prop} :
    (∀ f ∈ s.written record.fields, P f.2) ↔ ∀ field v, s.given field = some v → P v := by
  constructor
  · intro h field v hgiven
    obtain ⟨g, hg, rfl⟩ := mem_record field
    exact h (g.1, v) (mem_written.2 ⟨g, hg, rfl, hgiven⟩)
  · intro h f hf
    obtain ⟨g, _, _, hgiven⟩ := mem_written.1 hf
    exact h g.2 f.2 hgiven

theorem shaped_toJson_iff {s : Schema} {depth : Nat} :
    Shaped (depth + 1) s.toJson ↔ ∀ field v, s.given field = some v → Shaped depth v := by
  rw [toJson_eq, shaped_object, forall_written_iff]
  exact and_iff_right ((keys_written_sublist s record.fields).nodup (by decide))

theorem wholeNumbers_toJson_iff {s : Schema} :
    s.toJson.wholeNumbers = true ↔ ∀ field v, s.given field = some v → v.wholeNumbers = true := by
  rw [toJson_eq, wholeNumbers_object]
  exact forall_written_iff (P := fun v => v.wholeNumbers = true)

end Schema

end Classwright
