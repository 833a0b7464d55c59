import Classwright.Proofs.Schema.Written

/-!
# Schemas are read back

A schema that is written and read again is the same schema. It is read in two ways: from text, and, under
`additionalProperties`, from a plain value that was read before. Both go field by field, so both come
down to what is read for a single field (`withField_given`, `readsBack_read`).

* **`ofJson?_toJson`** — from a plain value.
* **`ofText_render_of_shaped`** — from text.
-/

namespace Classwright

theorem SchemaType.ofJson?_toJson (t : SchemaType) : SchemaType.ofJson? t.toJson = some t := by
  cases t <;> decide

theorem SchemaType.mapM_ofJson?_toJson (ts : List SchemaType) :
    (ts.map SchemaType.toJson).mapM SchemaType.ofJson? = some ts := by
  induction ts with
  | nil => rfl
  | cons t ts ih => simp [List.mapM_cons, SchemaType.ofJson?_toJson, ih]

theorem TypeChoice.ofJson?_toJson (c : TypeChoice) : TypeChoice.ofJson? c.toJson = some c := by
  cases c with
  | one t =>
    unfold TypeChoice.ofJson?
    rw [TypeChoice.toJson, SchemaType.ofJson?_toJson]
  | many ts =>
    have hmapped : TypeChoice.ofJson? (.list (ts.map SchemaType.toJson)) =
        ((ts.map SchemaType.toJson).mapM SchemaType.ofJson?).map .many := rfl
    rw [TypeChoice.toJson, hmapped, SchemaType.mapM_ofJson?_toJson]
    rfl

theorem TypeChoice.isNull_toJson (c : TypeChoice) : c.toJson.isNull = false := by
  cases c <;> rfl

theorem texts?_map (texts : List String) : texts? (.list (texts.map .text)) = some texts := by
  unfold texts?
  induction texts with
  | nil => rfl
  | cons t texts ih => simp only [List.map_cons, List.mapM_cons, ih]; rfl

namespace Schema

open Json

theorem namedToJson_eq (named : Fields Schema) : namedToJson named = Fields.mapValues toJson named := by
  induction named with
  | nil => rfl
  | cons d rest ih => rw [namedToJson, ih, Fields.mapValues_cons]

theorem eq_object_of_namedValue {named : Fields Schema} {v : Json} (h : namedValue named = some v) :
    v = .object (Fields.mapValues toJson named) := by
  unfold namedValue at h
  split at h
  · cases h
  · rw [← namedToJson_eq]
    exact (Option.some.inj h).symm

theorem isNull_toJson (s : Schema) : s.toJson.isNull = false := by
  rw [toJson_eq]
  rfl

theorem eq_list_of_given_required {s : Schema} {v : Json} (h : s.given .required = some v) :
    v = .list (s.required.map .text) := by
  rw [given] at h
  split at h
  · cases h
  · exact (Option.some.inj h).symm

theorem exists_of_given_items {s : Schema} {v : Json} (h : s.given .items = some v) :
    ∃ sub : Schema, s.items = some sub ∧ v = sub.toJson := by
  rw [given] at h
  cases hitems : s.items with
  | none => rw [hitems] at h; cases h
  | some sub =>
    rw [hitems] at h
    cases h
    exact ⟨sub, rfl, rfl⟩

theorem exists_of_given_additional {s : Schema} {v : Json} (h : s.given .additionalProperties = some v) :
    (∃ b, s.additionalProperties = some (.flag b) ∧ v = .bool b) ∨
      ∃ sub : Schema, s.additionalProperties = some (.schema sub) ∧ v = sub.toJson := by
  rw [given] at h
  rcases hadditional : s.additionalProperties with _ | (b | sub)
  · rw [hadditional] at h
    cases h
  · rw [hadditional] at h
    cases h
    exact Or.inl ⟨b, rfl, rfl⟩
  · rw [hadditional] at h
    cases h
    exact Or.inr ⟨sub, rfl, rfl⟩

/-! ## From plain values -/

theorem ofNamed?_mapValues {named : Fields Schema} (hkeys : named.keys.Nodup)
    (h : ∀ d ∈ named, ofJson? d.2.toJson = some d.2) :
    ofNamed? (.object (Fields.mapValues toJson named)) = some named := by
  have hfields : ofNamedFields? (Fields.mapValues toJson named) = some named := by
    clear hkeys
    induction named with
    | nil => rfl
    | cons d rest ih =>
      rw [Fields.mapValues_cons, ofNamedFields?, h d List.mem_cons_self,
        ih fun d' hd' => h d' (List.mem_cons_of_mem _ hd')]
  rw [ofNamed?, hfields, Option.map_some, Fields.collapse_eq_self hkeys]

/-- The value of a field gives the field back. -/
theorem withField_given {s : Schema} {field : SchemaField} {v : Json} {depth : Nat}
    (hgiven : s.given field = some v) (hshape : Shaped depth v)
    (hread : ∀ s : Schema, Shaped depth s.toJson → ofJson? s.toJson = some s) (draft : Schema) :
    withField field draft v (fun _ => ofJson? v) (fun _ => ofNamed? v) = some (put s field draft) := by
  have hnamed {named : Fields Schema} (h : namedValue named = some v) : ofNamed? v = some named := by
    cases eq_object_of_namedValue h
    cases depth with
    | zero => exact absurd hshape not_shaped_object_zero
    | succ depth =>
      rw [shaped_object, Fields.keys_mapValues] at hshape
      refine ofNamed?_mapValues hshape.1 fun d hd => hread d.2 ?_
      exact (hshape.2 (d.1, d.2.toJson) (List.mem_map_of_mem hd)).succ
  cases field with
  | title | description | reference | format =>
    obtain ⟨t, ht, rfl⟩ := Option.map_eq_some_iff.1 hgiven
    simp only [withField, put, ht, optionalText?, Option.map_some]
  | type =>
    obtain ⟨c, hc, rfl⟩ := Option.map_eq_some_iff.1 hgiven
    simp only [withField, put, hc, TypeChoice.isNull_toJson, TypeChoice.ofJson?_toJson, Option.map_some,
      Bool.false_eq_true, if_false]
  | properties => simp only [withField, put, hnamed hgiven, Option.map_some]
  | definitions => simp only [withField, put, hnamed hgiven, Option.map_some]
  | required =>
    rw [eq_list_of_given_required hgiven]
    simp only [withField, put, texts?_map, Option.map_some]
  | items =>
    obtain ⟨sub, hitems, rfl⟩ := exists_of_given_items hgiven
    simp only [withField, put, hitems, isNull_toJson, hread sub hshape, Option.map_some,
      Bool.false_eq_true, if_false]
  | additionalProperties =>
    rcases exists_of_given_additional hgiven with ⟨b, hflag, rfl⟩ | ⟨sub, hschema, rfl⟩
    · simp only [withField, put, hflag]
    · have hsub := hread sub hshape
      rw [toJson_eq] at hsub ⊢
      simp only [withField, put, hschema, hsub, Option.map_some]
  | enumeration =>
    obtain ⟨items, hitems, rfl⟩ := Option.map_eq_some_iff.1 hgiven
    have hcollapse : collapseItems items = items :=
      Json.list.inj (collapse_eq_self hshape.distinct)
    simp only [withField, put, hitems, hcollapse]

/-- **Schemas are read back from plain values.** -/
theorem ofJson?_toJson {s : Schema} {depth : Nat} (h : Shaped depth s.toJson) :
    ofJson? s.toJson = some s := by
  induction depth generalizing s with
  | zero =>
    rw [toJson_eq] at h
    exact absurd h not_shaped_object_zero
  | succ depth ih =>
    have hfields : ofFields? [] {} (s.written record.fields) = some s := by
      refine written_ind (Q := fun seen draft fields =>
        ofFields? (seen.map Prod.snd) draft fields = some s) s (fun _ => rfl) ?_
      intro seen key field v draft rest hget _ hfield hgiven hrest
      rw [ofFields?, hget]
      dsimp only
      rw [if_neg (by simpa using hfield),
        withField_given hgiven (shaped_toJson_iff.1 h field v hgiven) (fun _ => ih) draft]
      exact hrest
    rw [toJson_eq]
    exact hfields

/-! ## From text -/

theorem readsBack_readChoice {α : Type} {union : String} {fit : Json → Option α} {v : Json} {x : α}
    (hfit : fit v = some x) (hwhole : v.wholeNumbers = true) {depth : Nat} (hdepth : v.nesting ≤ depth)
    (path : Path) : ReadsBack (readChoice union fit depth path) v x := by
  intro rest hrest
  obtain ⟨hshorter, hraw⟩ := readsBack_readRaw hwhole hdepth path rest hrest
  unfold readChoice
  rw [hraw]
  dsimp only
  rw [hfit]
  exact ⟨hshorter, rfl⟩

theorem readsBack_readTexts (depth : Nat) (path : Path) (texts : List String) :
    ReadsBack (readTexts (depth + 1) path) (.list (texts.map .text)) texts := by
  unfold readTexts
  refine readsBack_readList (List.forall₂_map_left_iff.2 (List.forall₂_same.2 fun t _ => ?_))
  exact ⟨rfl, fun i => readsBack_readText _ t⟩

theorem readsBack_readValues {depth : Nat} {items : List Json} (hshape : Shaped (depth + 1) (.list items))
    (hwhole : (list items).wholeNumbers = true) (path : Path) :
    ReadsBack (readValues (depth + 1) path) (.list items) items := by
  rw [shaped_list] at hshape
  rw [wholeNumbers_list] at hwhole
  unfold readValues
  refine readsBack_readList (List.forall₂_same.2 fun v hv => ⟨hwhole v hv, fun i => ?_⟩)
  exact readsBack_readValue (hshape v hv).distinct (hwhole v hv) (hshape v hv).nested _

theorem readsBack_readNamed {depth : Nat} {named : Fields Schema} (hkeys : named.keys.Nodup)
    (h : ∀ d ∈ named, ∀ path, ReadsBack (read depth path) d.2.toJson d.2) (path : Path) :
    ReadsBack (readNamed (depth + 1) path) (.object (Fields.mapValues toJson named)) named := by
  have hobject : ReadsBack (readObject path (some fun key => read depth (.key key :: path)))
      (.object (Fields.mapValues toJson named)) named :=
    readsBack_readObject (List.forall₂_map_left_iff.2 (List.forall₂_same.2 fun d hd =>
      ⟨rfl, h d hd _⟩))
  have hcollapsed := hobject.map Fields.collapse
  rw [Fields.collapse_eq_self hkeys] at hcollapsed
  unfold readNamed
  exact hcollapsed

theorem additional_ofJson?_toJson {s : Schema} (h : ofJson? s.toJson = some s) :
    Additional.ofJson? s.toJson = some (.schema s) := by
  rw [toJson_eq] at h ⊢
  have hobject : Additional.ofJson? (.object (s.written record.fields)) =
      (ofJson? (.object (s.written record.fields))).map .schema := rfl
  rw [hobject, h]
  rfl

/-- A record is read back if each of its fields is. -/
theorem readsBack_record {s : Schema} {assign : Assign SchemaField Schema}
    (h : ∀ field v, s.given field = some v → ∀ path draft,
      ReadsBack (assign field path draft) v (put s field draft)) (path : Path) :
    ReadsBack (readRecord record {} path (some assign)) s.toJson s := by
  have hfills : ∃ last, Fills (recordEntry record assign path) ([], {}) (s.written record.fields)
      (last, s) := by
    refine written_ind (Q := fun seen draft fields =>
      ∃ last, Fills (recordEntry record assign path) (seen.keys, draft) fields (last, s)) s
      (fun seen => ⟨_, Fills.nil _⟩) ?_
    intro seen key field v draft rest hget hkey _ hgiven hrest
    obtain ⟨last, hrest⟩ := hrest
    exact ⟨last, Fills.field hget hkey (h field v hgiven _ draft) hrest⟩
  obtain ⟨last, hfills⟩ := hfills
  rw [toJson_eq]
  exact readsBack_readRecord hfills

/-- **Schemas are read back from text.** By induction on the depth, which goes down by one for the schema
and by one more for the names of its parts. -/
theorem readsBack_read {s : Schema} {depth : Nat} (hshape : Shaped depth s.toJson)
    (hwhole : s.toJson.wholeNumbers = true) (path : Path) :
    ReadsBack (read depth path) s.toJson s := by
  induction depth using Nat.strongRecOn generalizing s path with
  | ind depth ih =>
    cases depth with
    | zero =>
      rw [toJson_eq] at hshape
      exact absurd hshape not_shaped_object_zero
    | succ depth =>
      rw [shaped_toJson_iff] at hshape
      rw [wholeNumbers_toJson_iff] at hwhole
      -- named schemas stand two levels down, below the object of their names
      have hnamed {named : Fields Schema} {v : Json} (hv : Shaped depth v)
          (hvwhole : v.wholeNumbers = true) (h : namedValue named = some v) (path : Path) :
          ReadsBack (readNamed depth path) v named := by
        cases eq_object_of_namedValue h
        cases depth with
        | zero => exact absurd hv not_shaped_object_zero
        | succ depth =>
          rw [shaped_object, Fields.keys_mapValues] at hv
          rw [wholeNumbers_object] at hvwhole
          refine readsBack_readNamed hv.1 (fun d hd path => ih depth (by omega) ?_ ?_ path) path
          · exact hv.2 (d.1, d.2.toJson) (List.mem_map_of_mem hd)
          · exact hvwhole (d.1, d.2.toJson) (List.mem_map_of_mem hd)
      unfold read
      refine readsBack_record (fun field v hgiven path draft => ?_) path
      have hv := hshape field v hgiven
      have hvwhole := hwhole field v hgiven
      cases field with
      | title | description | reference | format =>
        obtain ⟨t, ht, rfl⟩ := Option.map_eq_some_iff.1 hgiven
        rw [put, ht]
        exact (readsBack_readOptional path rfl rfl (readsBack_readText path t)).map _
      | type =>
        obtain ⟨c, hc, rfl⟩ := Option.map_eq_some_iff.1 hgiven
        rw [put, hc]
        exact (readsBack_readOptional path hvwhole c.isNull_toJson
          (readsBack_readChoice c.ofJson?_toJson hvwhole hv.nested path)).map _
      | properties => exact (hnamed hv hvwhole hgiven path).map _
      | definitions => exact (hnamed hv hvwhole hgiven path).map _
      | required =>
        cases eq_list_of_given_required hgiven
        cases depth with
        | zero => exact absurd hv not_shaped_list_zero
        | succ depth => exact (readsBack_readTexts depth path s.required).map _
      | items =>
        obtain ⟨sub, hitems, rfl⟩ := exists_of_given_items hgiven
        rw [put, hitems]
        exact (readsBack_readOptional path hvwhole sub.isNull_toJson
          (ih depth (Nat.lt_succ_self depth) hv hvwhole path)).map _
      | additionalProperties =>
        rcases exists_of_given_additional hgiven with ⟨b, hflag, rfl⟩ | ⟨sub, hschema, rfl⟩
        · have hfit : Additional.ofJson? (.bool b) = some (.flag b) := rfl
          rw [put, hflag]
          exact (readsBack_readOptional path hvwhole rfl
            (readsBack_readChoice hfit hvwhole hv.nested path)).map _
        · -- a choice is fitted to a plain value, so the schema comes back by the other reader
          have hsub := additional_ofJson?_toJson (ofJson?_toJson hv)
          rw [put, hschema]
          exact (readsBack_readOptional path hvwhole sub.isNull_toJson
            (readsBack_readChoice hsub hvwhole hv.nested path)).map _
      | enumeration =>
        obtain ⟨items, hitems, rfl⟩ := Option.map_eq_some_iff.1 hgiven
        rw [put, hitems]
        cases depth with
        | zero => exact absurd hv not_shaped_list_zero
        | succ depth =>
          exact (readsBack_readOptional path hvwhole rfl (readsBack_readValues hv hvwhole path)).map _

theorem ofText_render_of_shaped {s : Schema} (hshape : Shaped maxDepth s.toJson)
    (hwhole : s.toJson.wholeNumbers = true) : ofText s.render = .ok s :=
  (readsBack_read hshape hwhole []).readDocument

end Schema

end Classwright
