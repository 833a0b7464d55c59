import Classwright.Proofs.Schema.Reader
import Classwright.Proofs.Schema.RoundTrip

/-!
# Schemas that were read can be written and read again

What a reader gives has the shape that the round trip asks for: names are collapsed, and the depth that
bounds the text bounds the schema. A schema need not be written as it was read: fields may stand in a
list without their names, a type may be an object, and what is skipped is gone. None of this nests
deeper in what is written.

* **`nesting_readRaw`** — plain values nest as deep as their text.
* **`shaped_ofJson?`**, **`shaped_read`** — schemas read from plain values and from text.
* **`ofText_render`** — reading what was written gives the schema back.
-/

namespace Classwright

namespace Json

variable {α : Type}

/-! ## Plain values -/

theorem itemsFrom_invariant {P : α → Prop} {path : Path} {item : Nat → Reader α}
    (hitem : ∀ i, (item i).Gives P) {s₀ : List Char} {index : Nat} {done : List α} {s : List Char}
    {hs : s.length ≤ s₀.length} {v : Taken (List α) s₀} (hdone : ∀ a ∈ done, P a)
    (h : itemsFrom path item index done s hs = .ok v) : ∀ a ∈ v.value, P a := by
  fun_induction itemsFrom path item index done s hs with
  | case2 =>
    cases h
    exact fun a ha => hdone a (List.mem_reverse.1 ha)
  | case4 index done s hs r le hnext w hw ih =>
    refine ih (fun a ha => ?_) h
    rcases List.mem_cons.1 ha with rfl | ha
    · exact hitem _ _ _ hw
    · exact hdone a ha
  | _ => cases h

theorem readList_gives {P : α → Prop} {item : Option (Nat → Reader α)} {path : Path}
    (h : ∀ read i, item = some read → (read i).Gives P) :
    (readList path item).Gives fun items => ∀ a ∈ items, P a := by
  intro s v hv
  unfold readList at hv
  split at hv
  · split at hv
    · cases hv
    · next read => exact itemsFrom_invariant (fun i => h read i rfl) (fun _ ha => absurd ha List.not_mem_nil) hv
  · cases hv

/-- Where no depth is left for a list, nothing is given. -/
theorem readList_none_gives (path : Path) (P : List α → Prop) : (readList path none).Gives P := by
  intro s v hv
  unfold readList at hv
  split at hv
  · cases hv
  · cases hv

theorem readOptional_gives {P : α → Prop} {read : Reader α} (path : Path) (h : read.Gives P) :
    (readOptional path read).Gives fun x => ∀ a ∈ x, P a := by
  intro s v hv
  unfold readOptional at hv
  split at hv
  · split at hv
    · cases hv
      intro a ha
      cases ha
    · cases hv
  · cases hread : read s with
    | error fault => rw [hread] at hv; cases hv
    | ok x =>
      rw [hread] at hv
      cases hv
      intro a ha
      cases ha
      exact h s x hread

theorem nesting_scalar (x : Scalar) : x.toJson.nesting = 0 := by
  cases x <;> rfl

/-- What is read nests no deeper than the reader allows. -/
theorem nesting_readRaw (depth : Nat) (path : Path) :
    (readRaw depth path).Gives fun v => v.nesting ≤ depth := by
  induction depth using Nat.strongRecOn generalizing path with
  | ind depth ih =>
    intro s v hv
    unfold readRaw at hv
    split at hv
    · split at hv
      · cases hv
      · next d =>
        have hitems : (readList path (some fun i => readRaw d (.index i :: path))).Gives
            fun items => ∀ v ∈ items, v.nesting ≤ d := by
          refine readList_gives fun read i hread => ?_
          cases hread
          exact ih d (Nat.lt_succ_self d) _
        exact Reader.Gives.map (P := fun v => v.nesting ≤ d + 1)
          (fun s v hv => nesting_list.2 (hitems s v hv)) s v hv
    · split at hv
      · cases hv
      · next d =>
        have hfields : (readObject path (some fun key => readRaw d (.key key :: path))).Gives
            fun fields => ∀ f ∈ fields, f.2.nesting ≤ d := by
          refine readObject_gives (P := fun v : Json => v.nesting ≤ d) fun read key hread => ?_
          cases hread
          exact ih d (Nat.lt_succ_self d) _
        exact Reader.Gives.map (P := fun v => v.nesting ≤ d + 1)
          (fun s v hv => nesting_object.2 (hfields s v hv)) s v hv
    · cases hscalar : scalar (skipSpace s) with
      | error cause => rw [hscalar] at hv; cases hv
      | ok x =>
        rw [hscalar] at hv
        cases hv
        exact Nat.le_trans (Nat.le_of_eq (nesting_scalar x.value)) (Nat.zero_le depth)

theorem nesting_collapse {v : Json} {n : Nat} (h : v.nesting ≤ n) : v.collapse.nesting ≤ n := by
  induction v generalizing n with
  | null => exact h
  | bool b => exact h
  | number x => exact h
  | text s => exact h
  | list items ih =>
    cases n with
    | zero => cases h
    | succ n =>
      rw [nesting_list] at h
      rw [collapse, nesting_list, collapseItems_eq_map]
      intro w hw
      obtain ⟨v, hv, rfl⟩ := List.mem_map.1 hw
      exact ih v hv (h v hv)
  | object fields ih =>
    cases n with
    | zero => cases h
    | succ n =>
      rw [nesting_object] at h
      rw [collapse, nesting_object, collapseFields_eq_mapValues]
      intro g hg
      obtain ⟨f, hf, rfl⟩ := List.mem_map.1 (Fields.mem_of_mem_collapse hg)
      exact ih f hf (h f hf)

theorem shaped_collapse {v : Json} {depth : Nat} (h : v.nesting ≤ depth) : Shaped depth v.collapse :=
  ⟨distinctKeys_collapse v, nesting_collapse h⟩

end Json

namespace Schema

open Json

variable {depth : Nat}

/-! ## One field -/

/-- A draft keeps its shape when it takes over a field that has it. -/
theorem shaped_put (s : Schema) (field : SchemaField) {draft : Schema} (hdraft : Shaped (depth + 1) draft.toJson)
    (h : ∀ v, s.given field = some v → Shaped depth v) : Shaped (depth + 1) (put s field draft).toJson := by
  rw [shaped_toJson_iff] at hdraft ⊢
  intro g v hgiven
  by_cases heq : field = g
  · subst heq
    rw [given_put_self] at hgiven
    exact h v hgiven
  · rw [given_put_of_ne heq] at hgiven
    exact hdraft g v hgiven

theorem shaped_empty (depth : Nat) : Shaped (depth + 1) (toJson {}) := by
  rw [shaped_toJson_iff]
  intro field v hgiven
  cases field <;> cases hgiven

theorem shaped_optionalText {x : Option String} {v : Json} (h : x.map .text = some v) : Shaped depth v := by
  obtain ⟨t, -, rfl⟩ := Option.map_eq_some_iff.1 h
  exact shaped_text depth t

/-- Several types are written as a list, and they were read from one. -/
theorem shaped_typeChoice {v : Json} {c : TypeChoice} (hnested : v.nesting ≤ depth)
    (h : TypeChoice.ofJson? v = some c) : Shaped depth c.toJson := by
  cases c with
  | one t => exact shaped_text depth _
  | many ts =>
    cases depth with
    | succ depth =>
      refine shaped_list.2 fun w hw => ?_
      obtain ⟨t, -, rfl⟩ := List.mem_map.1 hw
      exact shaped_text depth _
    | zero =>
      unfold TypeChoice.ofJson? at h
      split at h
      · cases h
      · split at h
        · cases hnested
        · cases h

theorem shaped_namedValue {named : Fields Schema} (hkeys : named.keys.Nodup)
    (h : ∀ d ∈ named, Shaped depth d.2.toJson) {v : Json} (hv : namedValue named = some v) :
    Shaped (depth + 1) v := by
  cases eq_object_of_namedValue hv
  rw [shaped_object, Fields.keys_mapValues]
  refine ⟨hkeys, fun f hf => ?_⟩
  obtain ⟨d, hd, rfl⟩ := List.mem_map.1 hf
  exact h d hd

theorem shaped_items {x : Option Schema} (h : ∀ s ∈ x, Shaped depth s.toJson) {v : Json}
    (hv : given { items := x } .items = some v) : Shaped depth v := by
  obtain ⟨s, rfl, rfl⟩ := exists_of_given_items hv
  exact h s rfl

theorem shaped_additional {x : Option (Additional Schema)}
    (h : ∀ s, x = some (.schema s) → Shaped depth s.toJson) {v : Json}
    (hv : given { additionalProperties := x } .additionalProperties = some v) : Shaped depth v := by
  rcases exists_of_given_additional hv with ⟨b, -, rfl⟩ | ⟨s, hs, rfl⟩
  · exact shaped_bool depth b
  · exact h s hs

theorem shaped_enumeration {x : Option (List Json)} (h : ∀ items ∈ x, Shaped depth (.list items)) {v : Json}
    (hv : given { enumeration := x } .enumeration = some v) : Shaped depth v := by
  obtain ⟨items, hitems, rfl⟩ := Option.map_eq_some_iff.1 hv
  exact h items hitems

theorem shaped_collapse_namedValue {named : Fields Schema} (h : ∀ d ∈ named, Shaped depth d.2.toJson)
    {v : Json} (hv : namedValue (Fields.collapse named) = some v) : Shaped (depth + 1) v :=
  shaped_namedValue (Fields.nodup_keys_collapse named) (fun d hd => h d (Fields.mem_of_mem_collapse hd)) hv

theorem shaped_required {texts : List String} {v : Json} (h : given { required := texts } .required = some v) :
    Shaped (depth + 1) v := by
  cases eq_list_of_given_required h
  refine shaped_list.2 fun w hw => ?_
  obtain ⟨t, -, rfl⟩ := List.mem_map.1 hw
  exact shaped_text depth t

/-! ## From plain values -/

/-- Named schemas from a plain value. -/
theorem exists_of_ofNamed? {v : Json} {named : Fields Schema} (h : ofNamed? v = some named) :
    ∃ fields done, v = .object fields ∧ named = Fields.collapse done ∧
      ∀ d ∈ done, ∃ f ∈ fields, ofJson? f.2 = some d.2 := by
  cases v with
  | object fields =>
    rw [ofNamed?] at h
    obtain ⟨done, hdone, rfl⟩ := Option.map_eq_some_iff.1 h
    refine ⟨fields, done, rfl, rfl, ?_⟩
    clear h
    induction fields generalizing done with
    | nil =>
      cases hdone
      exact fun d hd => absurd hd List.not_mem_nil
    | cons f rest ih =>
      rw [ofNamedFields?] at hdone
      split at hdone
      · next s done' hs hrest =>
        cases hdone
        intro d hd
        rcases List.mem_cons.1 hd with rfl | hd
        · exact ⟨f, List.mem_cons_self, hs⟩
        · obtain ⟨g, hg, hread⟩ := ih done' hrest d hd
          exact ⟨g, List.mem_cons_of_mem _ hg, hread⟩
      · cases hdone
  | _ => cases h

theorem shaped_ofNamed? {v : Json} {named : Fields Schema}
    (hread : ∀ m ≤ depth, ∀ v s, v.nesting ≤ m → ofJson? v = some s → Shaped m s.toJson)
    (hnested : v.nesting ≤ depth) (h : ofNamed? v = some named) {w : Json}
    (hw : namedValue named = some w) : Shaped depth w := by
  obtain ⟨fields, done, rfl, rfl, hdone⟩ := exists_of_ofNamed? h
  cases depth with
  | zero => cases hnested
  | succ depth =>
    rw [nesting_object] at hnested
    refine shaped_collapse_namedValue (fun d hd => ?_) hw
    obtain ⟨f, hf, hs⟩ := hdone d hd
    exact hread depth (Nat.le_succ depth) f.2 d.2 (hnested f hf) hs

/-- A draft keeps its shape when it gets a field from a plain value. -/
theorem shaped_withField {field : SchemaField} {draft draft' : Schema} {v : Json}
    (hread : ∀ m ≤ depth, ∀ v s, v.nesting ≤ m → ofJson? v = some s → Shaped m s.toJson)
    (hnested : v.nesting ≤ depth) (hdraft : Shaped (depth + 1) draft.toJson)
    (h : withField field draft v (fun _ => ofJson? v) (fun _ => ofNamed? v) = some draft') :
    Shaped (depth + 1) draft'.toJson := by
  cases field with
  | title =>
    obtain ⟨x, -, rfl⟩ := Option.map_eq_some_iff.1 h
    exact shaped_put { title := x } .title hdraft fun _ => shaped_optionalText
  | description =>
    obtain ⟨x, -, rfl⟩ := Option.map_eq_some_iff.1 h
    exact shaped_put { description := x } .description hdraft fun _ => shaped_optionalText
  | reference =>
    obtain ⟨x, -, rfl⟩ := Option.map_eq_some_iff.1 h
    exact shaped_put { reference := x } .reference hdraft fun _ => shaped_optionalText
  | format =>
    obtain ⟨x, -, rfl⟩ := Option.map_eq_some_iff.1 h
    exact shaped_put { format := x } .format hdraft fun _ => shaped_optionalText
  | type =>
    unfold withField at h
    dsimp only at h
    split at h
    · cases h
      exact shaped_put {} .type hdraft fun _ hv => nomatch hv
    · obtain ⟨c, hc, rfl⟩ := Option.map_eq_some_iff.1 h
      refine shaped_put { type := some c } .type hdraft fun w hw => ?_
      cases hw
      exact shaped_typeChoice hnested hc
  | properties =>
    obtain ⟨named, hn, rfl⟩ := Option.map_eq_some_iff.1 h
    exact shaped_put { properties := named } .properties hdraft fun _ => shaped_ofNamed? hread hnested hn
  | definitions =>
    obtain ⟨named, hn, rfl⟩ := Option.map_eq_some_iff.1 h
    exact shaped_put { definitions := named } .definitions hdraft fun _ => shaped_ofNamed? hread hnested hn
  | required =>
    obtain ⟨texts, ht, rfl⟩ := Option.map_eq_some_iff.1 h
    -- texts come from a list, so there is depth for one
    have hpos : depth ≠ 0 := by
      rintro rfl
      cases v with
      | list items => cases hnested
      | _ => cases ht
    obtain ⟨m, rfl⟩ := Nat.exists_eq_succ_of_ne_zero hpos
    exact shaped_put { required := texts } .required hdraft fun _ => shaped_required
  | items =>
    unfold withField at h
    dsimp only at h
    split at h
    · cases h
      exact shaped_put {} .items hdraft fun _ hv => nomatch hv
    · obtain ⟨s, hs, rfl⟩ := Option.map_eq_some_iff.1 h
      refine shaped_put { items := some s } .items hdraft fun _ => shaped_items fun s' hs' => ?_
      cases hs'
      exact hread depth (Nat.le_refl depth) v s hnested hs
  | additionalProperties =>
    unfold withField at h
    dsimp only at h
    split at h
    · cases h
      exact shaped_put {} .additionalProperties hdraft fun _ hv => nomatch hv
    · cases h
      exact shaped_put { additionalProperties := some (.flag _) } .additionalProperties hdraft
        fun _ => shaped_additional (by intro s hs; cases hs)
    · obtain ⟨s, hs, rfl⟩ := Option.map_eq_some_iff.1 h
      refine shaped_put { additionalProperties := some (.schema s) } .additionalProperties hdraft
        fun _ => shaped_additional fun s' hs' => ?_
      cases hs'
      exact hread depth (Nat.le_refl depth) v s hnested hs
  | enumeration =>
    unfold withField at h
    dsimp only at h
    split at h
    · cases h
      exact shaped_put {} .enumeration hdraft fun _ hv => nomatch hv
    · next items =>
      cases h
      refine shaped_put { enumeration := some (collapseItems items) } .enumeration hdraft
        fun _ => shaped_enumeration fun items' hitems => ?_
      cases hitems
      exact shaped_collapse hnested
    · cases h

/-- What every field keeps is kept by fields in order. -/
theorem ofItems?_invariant {I : Schema → Prop} {items : List Json}
    (hfield : ∀ v ∈ items, ∀ field draft draft', I draft →
      withField field draft v (fun _ => ofJson? v) (fun _ => ofNamed? v) = some draft' → I draft')
    {fields : List SchemaField} {draft s : Schema} (hdraft : I draft)
    (h : ofItems? fields draft items = some s) : I s := by
  induction items generalizing fields draft with
  | nil =>
    rw [ofItems?] at h
    cases h
    exact hdraft
  | cons v items ih =>
    cases fields with
    | nil => cases h
    | cons field fields =>
      rw [ofItems?] at h
      split at h
      · next draft' hdraft' =>
        exact ih (fun w hw => hfield w (List.mem_cons_of_mem _ hw))
          (hfield v List.mem_cons_self _ _ _ hdraft hdraft') h
      · cases h

/-- What every field keeps is kept by fields with names. -/
theorem ofFields?_invariant {I : Schema → Prop} {fields : Fields Json}
    (hfield : ∀ f ∈ fields, ∀ field draft draft', I draft →
      withField field draft f.2 (fun _ => ofJson? f.2) (fun _ => ofNamed? f.2) = some draft' → I draft')
    {seen : List SchemaField} {draft s : Schema} (hdraft : I draft)
    (h : ofFields? seen draft fields = some s) : I s := by
  induction fields generalizing seen draft with
  | nil =>
    rw [ofFields?] at h
    cases h
    exact hdraft
  | cons f fields ih =>
    have hlater := fun g hg => hfield g (List.mem_cons_of_mem f hg)
    rw [ofFields?] at h
    split at h
    · exact ih hlater hdraft h
    · split at h
      · cases h
      · split at h
        · next draft' hdraft' =>
          exact ih hlater (hfield f List.mem_cons_self _ _ _ hdraft hdraft') h
        · cases h

/-- **A schema from a plain value nests no deeper than the value.** By induction on the depth; each loop over
fields keeps the shape of the draft. -/
theorem shaped_ofJson? {v : Json} {s : Schema} (hnested : v.nesting ≤ depth) (h : ofJson? v = some s) :
    Shaped depth s.toJson := by
  induction depth using Nat.strongRecOn generalizing v s with
  | ind depth ih =>
    cases depth with
    | zero =>
      cases v with
      | list items => cases hnested
      | object fields => cases hnested
      | _ => cases h
    | succ depth =>
      have hfield {field : SchemaField} {draft draft' : Schema} {v : Json} (hv : v.nesting ≤ depth)
          (hdraft : Shaped (depth + 1) draft.toJson)
          (h : withField field draft v (fun _ => ofJson? v) (fun _ => ofNamed? v) = some draft') :
          Shaped (depth + 1) draft'.toJson :=
        shaped_withField (fun m hm v s => ih m (Nat.lt_succ_of_le hm)) hv hdraft h
      cases v with
      | list items =>
        rw [nesting_list] at hnested
        rw [ofJson?] at h
        exact ofItems?_invariant (fun v hv _ _ _ => hfield (hnested v hv)) (shaped_empty depth) h
      | object fields =>
        rw [nesting_object] at hnested
        rw [ofJson?] at h
        exact ofFields?_invariant (fun f hf _ _ _ => hfield (hnested f hf)) (shaped_empty depth) h
      | _ => cases h

/-! ## From text -/

/-- What a choice is fitted from nests no deeper than the reader allows. -/
theorem readChoice_gives {α : Type} {union : String} {fit : Json → Option α} {P : α → Prop} {path : Path}
    (h : ∀ v x, v.nesting ≤ depth → fit v = some x → P x) : (readChoice union fit depth path).Gives P := by
  intro s v hv
  unfold readChoice at hv
  split at hv
  · cases hv
  · next w hw =>
    split at hv
    · next x hx =>
      cases hv
      exact h w.value x (nesting_readRaw depth path s w hw) hx
    · cases hv

theorem shaped_readTexts (depth : Nat) (path : Path) : (readTexts depth path).Gives fun texts =>
    ∀ v, given { required := texts } .required = some v → Shaped depth v := by
  cases depth with
  | zero => exact readList_none_gives path _
  | succ depth => exact fun _ _ _ _ => shaped_required

theorem shaped_readValues (depth : Nat) (path : Path) :
    (readValues depth path).Gives fun items => Shaped depth (.list items) := by
  cases depth with
  | zero => exact readList_none_gives path _
  | succ depth =>
    have hitems : (readValues (depth + 1) path).Gives fun items => ∀ v ∈ items, Shaped depth v := by
      unfold readValues
      refine readList_gives fun read i hread => ?_
      cases hread
      exact Reader.Gives.map fun s v hv => shaped_collapse (nesting_readRaw depth _ s v hv)
    exact fun s v hv => shaped_list.2 (hitems s v hv)

theorem shaped_additional_ofJson? {v : Json} {x : Additional Schema} (hnested : v.nesting ≤ depth)
    (h : Additional.ofJson? v = some x) {s : Schema} (hx : x = .schema s) : Shaped depth s.toJson := by
  subst hx
  unfold Additional.ofJson? at h
  split at h
  · cases h
  · obtain ⟨s', hs', heq⟩ := Option.map_eq_some_iff.1 h
    cases heq
    exact shaped_ofJson? hnested hs'

theorem shaped_readNamed {depth : Nat}
    (h : ∀ path, (read depth path).Gives fun s => Shaped depth s.toJson) (path : Path) :
    (readNamed (depth + 1) path).Gives fun named =>
      ∀ v, namedValue named = some v → Shaped (depth + 1) v := by
  have hobject : (readObject path (some fun key => read depth (.key key :: path))).Gives
      fun named => ∀ d ∈ named, Shaped depth d.2.toJson := by
    refine readObject_gives (P := fun s : Schema => Shaped depth s.toJson) fun reader key hreader => ?_
    cases hreader
    exact h _
  unfold readNamed
  exact Reader.Gives.map fun s v hv w hw => shaped_collapse_namedValue (hobject s v hv) hw

/-- **A schema from text nests no deeper than the reader allows.** -/
theorem shaped_read (depth : Nat) (path : Path) : (read depth path).Gives fun s => Shaped depth s.toJson := by
  induction depth using Nat.strongRecOn generalizing path with
  | ind depth ih =>
    cases depth with
    | zero =>
      intro s v hv
      unfold read readRecord at hv
      split at hv
      · cases hv
      · cases hv
      · cases hv
    | succ depth =>
      have hnamed (path : Path) : (readNamed depth path).Gives fun named =>
          ∀ v, namedValue named = some v → Shaped depth v := by
        cases depth with
        | zero => exact readNamed_zero_gives path _
        | succ depth => exact shaped_readNamed (fun path => ih depth (by omega) path) path
      unfold read
      refine readRecord_gives (shaped_empty depth) fun f hf field path draft hdraft => ?_
      cases hf
      cases field with
      | title =>
        exact Reader.Gives.map fun _ v _ =>
          shaped_put { title := v.value } .title hdraft fun _ => shaped_optionalText
      | description =>
        exact Reader.Gives.map fun _ v _ =>
          shaped_put { description := v.value } .description hdraft fun _ => shaped_optionalText
      | reference =>
        exact Reader.Gives.map fun _ v _ =>
          shaped_put { reference := v.value } .reference hdraft fun _ => shaped_optionalText
      | format =>
        exact Reader.Gives.map fun _ v _ =>
          shaped_put { format := v.value } .format hdraft fun _ => shaped_optionalText
      | type =>
        have hchoice : (readOptional path (readChoice "SchemaTypes" TypeChoice.ofJson? depth path)).Gives
            fun x => ∀ c ∈ x, Shaped depth c.toJson :=
          readOptional_gives path (readChoice_gives fun v c hnested hc => shaped_typeChoice hnested hc)
        refine Reader.Gives.map fun s v hv => shaped_put { type := v.value } .type hdraft fun w hw => ?_
        obtain ⟨c, hc, rfl⟩ := Option.map_eq_some_iff.1 hw
        exact hchoice s v hv c hc
      | properties =>
        exact Reader.Gives.map fun s v hv =>
          shaped_put { properties := v.value } .properties hdraft (hnamed _ s v hv)
      | definitions =>
        exact Reader.Gives.map fun s v hv =>
          shaped_put { definitions := v.value } .definitions hdraft (hnamed _ s v hv)
      | required =>
        exact Reader.Gives.map fun s v hv =>
          shaped_put { required := v.value } .required hdraft (shaped_readTexts depth path s v hv)
      | items =>
        have hitems := readOptional_gives path (ih depth (Nat.lt_succ_self depth) path)
        exact Reader.Gives.map fun s v hv =>
          shaped_put { items := v.value } .items hdraft fun _ => shaped_items (hitems s v hv)
      | additionalProperties =>
        have hchoice : (readOptional path
            (readChoice "AdditionalProperties" Additional.ofJson? depth path)).Gives
            fun x => ∀ a ∈ x, ∀ s, a = .schema s → Shaped depth s.toJson :=
          readOptional_gives path (readChoice_gives fun v x hnested hx s =>
            shaped_additional_ofJson? hnested hx)
        exact Reader.Gives.map fun s v hv =>
          shaped_put { additionalProperties := v.value } .additionalProperties hdraft
            fun _ => shaped_additional fun sub hsub => hchoice s v hv _ hsub sub rfl
      | enumeration =>
        have hvalues := readOptional_gives path (shaped_readValues depth path)
        exact Reader.Gives.map fun s v hv =>
          shaped_put { enumeration := v.value } .enumeration hdraft
            fun _ => shaped_enumeration (hvalues s v hv)

theorem shaped_ofText {text : String} {s : Schema} (h : ofText text = .ok s) :
    Shaped maxDepth s.toJson :=
  readDocument_gives (shaped_read maxDepth []) h

/-- **Schemas are read back.** The numbers in enumerated values have to be whole. A schema then comes back if
its text nests less than 128 levels and it has one entry for each name, and so does every schema that was
read from any text. -/
theorem ofText_render (s : Schema) (hnumbers : s.toJson.wholeNumbers = true) :
    (s.toJson.distinctKeys = true → s.toJson.nesting < 128 → ofText s.render = .ok s) ∧
      ∀ text, ofText text = .ok s → ofText s.render = .ok s := by
  constructor
  · intro hkeys hnesting
    exact ofText_render_of_shaped ⟨hkeys, Nat.le_of_lt_succ hnesting⟩ hnumbers
  · intro text htext
    exact ofText_render_of_shaped (shaped_ofText htext) hnumbers

/-- A schema with fields of every kind: an empty choice of types, an empty enumeration, characters that are
escaped, and the least and the greatest number. -/
def manyFields : Schema where
  title := some "\"\\ \x01\u00e9\n"
  type := some (.many [])
  properties := [("", { type := some (.one .string) }), ("b", { items := some {} })]
  required := ["b", "b"]
  additionalProperties := some (.schema { enumeration := some [
    .number (.integer (-9223372036854775808)), .number (.integer 18446744073709551615),
    .object [("k", .list [.null])]] })
  definitions := [("d", { additionalProperties := some (.flag false) })]
  reference := some "#/definitions/d"
  enumeration := some []

theorem ofText_render_manyFields : ofText manyFields.render = .ok manyFields :=
  (ofText_render manyFields (by decide)).1 (by decide) (by decide)

end Schema

end Classwright
