import Classwright.Proofs.Model.Termination

/-!
# Aliases stand for their definitions

A reference to a definition that is no class stands for the definition itself. Classification guards
against definitions that come back to themselves, and it could see the guard, or see whether a schema
was referred to or written out. Here it sees neither, as long as the chain of a schema does not come
back to a definition that is being expanded.

## The architecture

* **`Scope.ComesBackTo`** — the chain comes to a reference that the guard stops. These are the chains
  that are warned about (`mem_warnings_classify`). A chain that does not come back goes straight to an
  end (`Scope.Straight`), and the main results are inductions along it.
* **`Scope.Plain`** — resolution without a guard: follow the chain to its end (`Scope.ending`) and wrap the
  result there as often as the chain went through an array or a map.
* **`Scope.Inlined`**, **`Scope.InlinesTo`** — a schema, and a table of definitions, in which references
  along the chain are replaced by what they stand for.
* **`inlining_transparent`** — both leave the result as it is.
-/

namespace Classwright

/-- What becomes of the shape ahead, where classification goes on. -/
def Schema.wrap (s : Schema) : Shape → Shape :=
  match s.reference, s.effectiveType with
  | some _, _ => id
  | none, some .array => .array
  | none, _ => .map

/-- Other items make no other type. -/
theorem Schema.effectiveType_items {s t : Schema} (hi : s.items = some t) (t' : Schema) :
    { s with items := some t' }.effectiveType = s.effectiveType := by
  simp only [effectiveType, safeType, hi, Option.isSome_some]

/-- Other values make no other type. -/
theorem Schema.effectiveType_values {s : Schema} {t : Additional Schema}
    (ha : s.additionalProperties = some t) (t' : Additional Schema) :
    { s with additionalProperties := some t' }.effectiveType = s.effectiveType := by
  simp only [effectiveType, safeType, ha, Option.isSome_some]

theorem Noted.warnings_map {α β : Type} (f : α → β) (x : Noted α) :
    (x.map f).warnings = x.warnings := rfl

namespace Scope

variable {scope scope' : Scope} {site : Site}

/-! ## Chains that come back -/

/-- The chain of a schema comes back to a definition that is being expanded. -/
def ComesBackTo (scope : Scope) (x : List String × Schema) (definition : String) : Prop :=
  ∃ y t, Relation.ReflTransGen scope.Advances x y ∧ scope.Continues (some definition) y.2 t ∧
    definition ∈ y.1

theorem onward_of_continues {label : Option String} {expanding : List String} {s t : Schema}
    (h : scope.Continues label s t) (hnew : ∀ d ∈ label, d ∉ expanding) :
    scope.onward site expanding s = .goOn s.wrap (label.toList ++ expanding) t := by
  cases h with
  | items hr ht hi => simp [onward, Schema.wrap, hr, ht, hi]
  | values hr ht hp ha => simp [onward, Schema.wrap, hr, ht, hp, ha]
  | @expand _ _ _ definition hr hn hd hc =>
    have hnew : definition ∉ expanding := hnew definition rfl
    simp [onward, Scope.expand, Schema.wrap, hr, hn, hd, hc, hnew]

theorem wrap_of_reference {definition : String} {s t : Schema}
    (h : scope.Continues (some definition) s t) : s.wrap = id := by
  cases h with
  | expand hr _ _ _ => simp only [Schema.wrap, hr]

theorem classify_of_continues {label : Option String} {expanding : List String} {s t : Schema}
    (h : scope.Continues label s t) (hnew : ∀ d ∈ label, d ∉ expanding) :
    scope.classify site expanding s =
      (scope.classify site (label.toList ++ expanding) t).map s.wrap := by
  rw [classify_eq_onward, onward_of_continues h hnew, Onward.finish]

/-- A chain that goes straight to its end. -/
inductive Straight (scope : Scope) : List String → Schema → Prop where
  | ends {expanding : List String} {s : Schema} (hend : ∀ t, ¬ scope.Follows s t) :
      Straight scope expanding s
  | goesOn {label : Option String} {expanding : List String} {s t : Schema}
      (hs : scope.Continues label s t) (hnew : ∀ d ∈ label, d ∉ expanding)
      (ht : Straight scope (label.toList ++ expanding) t) : Straight scope expanding s

/-- A chain that does not come back has an end: each step leaves less to go through. -/
theorem straight_of_not_comesBackTo {expanding : List String} {s : Schema}
    (h : ∀ d, ¬ scope.ComesBackTo (expanding, s) d) : scope.Straight expanding s := by
  by_cases hend : ∃ t, scope.Follows s t
  · obtain ⟨t, label, hs⟩ := hend
    have hnew : ∀ d ∈ label, d ∉ expanding := by
      rintro d rfl hmem
      exact h d ⟨(expanding, s), t, .refl, hs, hmem⟩
    have hstep : scope.Advances (expanding, s) (label.toList ++ expanding, t) :=
      ⟨label, hs, hnew, rfl⟩
    have hless := hstep.decreases
    refine .goesOn hs hnew (straight_of_not_comesBackTo ?_)
    rintro d ⟨y, u, hwalk, hback⟩
    exact h d ⟨y, u, hwalk.head hstep, hback⟩
  · exact .ends fun t ht => hend ⟨t, ht⟩
termination_by (scope.unexpanded expanding, sizeOf s)
decreasing_by exact hless

/-- Where classification is done it has warned of the definition that it is back at, if it is. -/
theorem warnings_of_done {expanding : List String} {s : Schema} {result : Noted Shape}
    (h : scope.onward site expanding s = .done result) (definition : String) :
    .cyclicAlias site.schemaId site.property definition ∈ result.warnings ↔
      ∃ t, scope.Continues (some definition) s t ∧ definition ∈ expanding := by
  constructor
  · intro hwarning
    unfold onward at h
    split at h
    · next fragment hr =>
      split at h
      · cases h
        cases hwarning
      · next found hn =>
        unfold expand at h
        split at h
        · cases h
          simp at hwarning
        · next t hd =>
          split at h
          · cases h
            cases hwarning
          · next hc =>
            split at h
            · next hmem =>
              cases h
              cases List.mem_singleton.1 hwarning
              exact ⟨t, .expand hr hn hd (by simpa using hc), hmem⟩
            · cases h
    · repeat' split at h
      all_goals
        cases h
        try simp at hwarning
  · rintro ⟨t, hs, hmem⟩
    cases hs with
    | expand hr hn hd hc =>
      simp only [onward, expand, hr, hn, hd, hc, Bool.false_eq_true, if_false, hmem, if_true] at h
      cases h
      exact List.mem_singleton.2 rfl

/-- **Classification warns of the definitions that a chain comes back to.** -/
theorem mem_warnings_classify (site : Site) {expanding : List String} {s : Schema}
    {definition : String} :
    .cyclicAlias site.schemaId site.property definition ∈
      (scope.classify site expanding s).warnings ↔
    scope.ComesBackTo (expanding, s) definition := by
  induction expanding, s using onward_induction scope site with
  | step expanding s ih =>
    rw [classify_eq_onward]
    cases honward : scope.onward site expanding s with
    | done result =>
      rw [Onward.finish, warnings_of_done honward, ComesBackTo]
      simp only [walk_iff_of_done honward, exists_and_left, exists_eq_left, exists_and_right]
    | goOn wrap expanding' t =>
      rw [Onward.finish, Noted.warnings_map, ih wrap expanding' t honward]
      simp only [ComesBackTo, walk_iff_of_goOn honward]
      constructor
      · rintro ⟨y, u, hwalk, hback⟩
        exact ⟨y, u, .inr hwalk, hback⟩
      · rintro ⟨y, u, rfl | hwalk, hs, hmem⟩
        -- a schema that goes on is not back at a definition
        · obtain ⟨label, hs', hnew, -⟩ := advances_of_onward honward
          obtain ⟨rfl, -⟩ := hs.unique hs'
          exact absurd hmem (hnew definition rfl)
        · exact ⟨y, u, hwalk, hs, hmem⟩

/-! ## Resolution without a guard -/

/-- The result at the end of a chain. -/
def ending (scope : Scope) (site : Site) (s : Schema) : Noted Shape :=
  match s.reference with
  | some fragment =>
    match definitionName? fragment with
    | none => ⟨.untyped, [.reference site.schemaId site.property fragment], []⟩
    | some definition =>
      -- a class, which may not be there
      ⟨.ofClass (scope.hints.classNameFor definition), [],
        if (scope.definitions.get? definition).isSome then []
        else [.unknownDefinition site.schemaId site.property definition]⟩
  | none =>
    match s.effectiveType with
    | some .array => ⟨.array .untyped, [], []⟩
    | some .object =>
      ⟨.map .untyped, [],
        if s.properties.isEmpty then [] else [.inlineObject site.schemaId site.property]⟩
    | some .string => ⟨.scalar (formatPrimitive s.format), [], []⟩
    | some .integer => ⟨.scalar .integer, [], []⟩
    | some .number => ⟨.scalar .number, [], []⟩
    | some .boolean => ⟨.scalar .boolean, [], []⟩
    | some .null | none => ⟨.untyped, [], []⟩

/-- The result of resolution without a guard: follow the chain to its end. There is none if the chain goes
on for ever. -/
inductive Plain (scope : Scope) (site : Site) : Schema → Noted Shape → Prop where
  | ends {s : Schema} (hend : ∀ t, ¬ scope.Follows s t) : Plain scope site s (scope.ending site s)
  | goesOn {label : Option String} {s t : Schema} {result : Noted Shape}
      (hs : scope.Continues label s t) (ht : Plain scope site t result) :
      Plain scope site s (result.map s.wrap)

theorem plain_iff_of_end {s : Schema} (hend : ∀ t, ¬ scope.Follows s t) {result : Noted Shape} :
    scope.Plain site s result ↔ result = scope.ending site s := by
  constructor
  · intro h
    cases h with
    | ends => rfl
    | goesOn hs _ => exact absurd ⟨_, hs⟩ (hend _)
  · rintro rfl
    exact .ends hend

theorem plain_iff_of_continues {label : Option String} {s t : Schema}
    (hs : scope.Continues label s t) {result : Noted Shape} :
    scope.Plain site s result ↔
      ∃ inner, scope.Plain site t inner ∧ result = inner.map s.wrap := by
  constructor
  · intro h
    cases h with
    | ends hend => exact absurd ⟨_, hs⟩ (hend t)
    | goesOn hs' ht =>
      obtain ⟨-, rfl⟩ := hs.unique hs'
      exact ⟨_, ht, rfl⟩
  · rintro ⟨inner, ht, rfl⟩
    exact .goesOn hs ht

/-- At the end of a chain the guard has no say. -/
theorem onward_of_end {s : Schema} (hend : ∀ t, ¬ scope.Follows s t) (expanding : List String) :
    scope.onward site expanding s = .done (scope.ending site s) := by
  cases hr : s.reference with
  | some fragment =>
    cases hn : definitionName? fragment with
    | none => simp [onward, ending, hr, hn]
    | some definition =>
      cases hd : scope.definitions.get? definition with
      | none => simp [onward, ending, expand, hr, hn, hd]
      | some t =>
        cases hc : t.isClass with
        | false => exact absurd ⟨_, .expand hr hn hd hc⟩ (hend t)
        | true => simp [onward, ending, expand, hr, hn, hd, hc]
  | none =>
    cases ht : s.effectiveType with
    | none => simp [onward, ending, hr, ht]
    | some type =>
      cases type with
      | array =>
        cases hi : s.items with
        | some t => exact absurd ⟨_, .items hr ht hi⟩ (hend t)
        | none => simp [onward, ending, hr, ht, hi]
      | object =>
        cases hp : s.properties with
        | cons p rest => simp [onward, ending, hr, ht, hp]
        | nil =>
          cases ha : s.additionalProperties with
          | none => simp [onward, ending, hr, ht, hp, ha]
          | some additional =>
            cases additional with
            | flag allowed => simp [onward, ending, hr, ht, hp, ha]
            | schema t => exact absurd ⟨_, .values hr ht hp ha⟩ (hend t)
      | _ => simp [onward, ending, hr, ht]

theorem classify_of_end {s : Schema} (hend : ∀ t, ¬ scope.Follows s t) (expanding : List String) :
    scope.classify site expanding s = scope.ending site s := by
  rw [classify_eq_onward, onward_of_end hend, Onward.finish]

/-! ## References written out -/

/-- The second schema is the first one, with references along its chain replaced by the schemas that they
stand for. -/
inductive Inlined (scope : Scope) : Schema → Schema → Prop where
  | same (s : Schema) : Inlined scope s s
  /-- A reference is replaced, and so may be others in what it stands for. -/
  | reference {definition : String} {s t t' : Schema} (hs : scope.Continues (some definition) s t)
      (ht : Inlined scope t t') : Inlined scope s t'
  | items {s t t' : Schema} (hr : s.reference = none) (ht : s.effectiveType = some .array)
      (hi : s.items = some t) (h : Inlined scope t t') :
      Inlined scope s { s with items := some t' }
  | values {s t t' : Schema} (hr : s.reference = none) (ht : s.effectiveType = some .object)
      (hp : s.properties = []) (ha : s.additionalProperties = some (.schema t))
      (h : Inlined scope t t') :
      Inlined scope s { s with additionalProperties := some (.schema t') }

/-- A definition before and after. Nothing is asked of a class except that it stays one. -/
inductive InlinedDefinition (scope : Scope) : Schema → Schema → Prop where
  | ofClass {s s' : Schema} (h : s.isClass = true) (h' : s'.isClass = true) :
      InlinedDefinition scope s s'
  | other {s s' : Schema} (h : s.isClass = false) (h' : scope.Inlined s s') :
      InlinedDefinition scope s s'

/-- The second scope has the definitions of the first one, with references replaced. -/
structure InlinesTo (scope scope' : Scope) : Prop where
  hints : scope'.hints = scope.hints
  definitions : ∀ name, Option.Rel scope.InlinedDefinition (scope.definitions.get? name)
    (scope'.definitions.get? name)

theorem Inlined.isClass {s s' : Schema} (h : scope.Inlined s s') (hs : s.isClass = false) :
    s'.isClass = false := by
  induction h with
  | same => exact hs
  | reference hs' _ ih =>
    cases hs' with
    | expand _ _ _ hc => exact ih hc
  | items | values => exact hs

theorem InlinedDefinition.refl (scope : Scope) :
    ∀ found : Option Schema, Option.Rel scope.InlinedDefinition found found
  | none => .none
  | some s => by
    cases hs : s.isClass with
    | true => exact .some (.ofClass hs hs)
    | false => exact .some (.other hs (.same s))

/-- A definition is in both scopes or in neither. -/
theorem InlinesTo.found (hto : scope.InlinesTo scope') (name : String) :
    scope.definitions.get? name = none ∧ scope'.definitions.get? name = none ∨
      ∃ s s', scope.definitions.get? name = some s ∧ scope'.definitions.get? name = some s' ∧
        scope.InlinedDefinition s s' := by
  have hrel := hto.definitions name
  generalize scope.definitions.get? name = found at hrel ⊢
  generalize scope'.definitions.get? name = found' at hrel ⊢
  cases hrel with
  | none => exact .inl ⟨rfl, rfl⟩
  | some h => exact .inr ⟨_, _, rfl, rfl, h⟩

/-- A chain goes on where it did, with a schema in which references are replaced. -/
theorem InlinesTo.exists_continues (hto : scope.InlinesTo scope') {label : Option String}
    {s t : Schema} (h : scope.Continues label s t) :
    ∃ t', scope'.Continues label s t' ∧ scope.Inlined t t' := by
  cases h with
  | items hr ht hi => exact ⟨t, .items hr ht hi, .same t⟩
  | values hr ht hp ha => exact ⟨t, .values hr ht hp ha, .same t⟩
  | @expand _ _ _ definition hr hn hd hc =>
    obtain ⟨hnone, -⟩ | ⟨u, u', hu, hu', hboth⟩ := hto.found definition
    · cases hd.symm.trans hnone
    · cases hd.symm.trans hu
      cases hboth with
      | ofClass h _ => cases hc.symm.trans h
      | other _ h => exact ⟨u', .expand hr hn hu' (h.isClass hc), h⟩

/-- **One step.** Where a reference was replaced, the schema ahead is already reached. Elsewhere the chain
takes the same step. -/
theorem Inlined.step (hto : scope.InlinesTo scope') {label : Option String} {s s' t : Schema}
    (hs : scope.Continues label s t) (h : scope.Inlined s s') :
    (s.wrap = id ∧ scope.Inlined t s') ∨
      ∃ t', scope'.Continues label s' t' ∧ s'.wrap = s.wrap ∧ scope.Inlined t t' := by
  cases h with
  | same =>
    obtain ⟨t', hs', ht'⟩ := hto.exists_continues hs
    exact .inr ⟨t', hs', rfl, ht'⟩
  | reference hr ht' =>
    obtain ⟨rfl, rfl⟩ := hs.unique hr
    exact .inl ⟨wrap_of_reference hs, ht'⟩
  | @items _ _ t' hr ht hi ht' =>
    obtain ⟨rfl, rfl⟩ := hs.unique (.items hr ht hi)
    have htype := Schema.effectiveType_items hi t'
    refine .inr ⟨t', .items hr (htype.trans ht) rfl, ?_, ht'⟩
    simp only [Schema.wrap, htype]
  | @values _ _ t' hr ht hp ha ht' =>
    obtain ⟨rfl, rfl⟩ := hs.unique (.values hr ht hp ha)
    have htype := Schema.effectiveType_values ha (.schema t')
    refine .inr ⟨t', .values hr (htype.trans ht) hp rfl, ?_, ht'⟩
    simp only [Schema.wrap, htype]

/-- At the end of a chain there is nothing to replace. -/
theorem Inlined.eq_of_end {s s' : Schema} (h : scope.Inlined s s') (hend : ∀ t, ¬ scope.Follows s t) :
    s' = s := by
  cases h with
  | same => rfl
  | reference hs _ => exact absurd ⟨_, hs⟩ (hend _)
  | items hr ht hi _ => exact absurd ⟨_, .items hr ht hi⟩ (hend _)
  | values hr ht hp ha _ => exact absurd ⟨_, .values hr ht hp ha⟩ (hend _)

/-- A chain that has come to its end is at its end also where references are replaced. -/
theorem InlinesTo.ends (hto : scope.InlinesTo scope') {s : Schema} (hend : ∀ t, ¬ scope.Follows s t) :
    ∀ t, ¬ scope'.Follows s t := by
  rintro t' ⟨label, hs⟩
  cases hs with
  | items hr ht hi => exact hend t' ⟨none, .items hr ht hi⟩
  | values hr ht hp ha => exact hend t' ⟨none, .values hr ht hp ha⟩
  | @expand _ _ _ definition hr hn hd' hc' =>
    obtain ⟨-, hnone⟩ | ⟨u, u', hu, hu', hboth⟩ := hto.found definition
    · cases hd'.symm.trans hnone
    · cases hd'.symm.trans hu'
      cases hboth with
      | ofClass _ h' => cases hc'.symm.trans h'
      | other hc _ => exact hend u ⟨some definition, .expand hr hn hu hc⟩

/-- A class is still that class, and what is not defined stays undefined. -/
theorem InlinesTo.ending (hto : scope.InlinesTo scope') (s : Schema) :
    scope'.ending site s = scope.ending site s := by
  have hdefined (definition : String) : (scope'.definitions.get? definition).isSome =
      (scope.definitions.get? definition).isSome := by
    obtain ⟨hnone, hnone'⟩ | ⟨u, u', hu, hu', -⟩ := hto.found definition
    · rw [hnone, hnone']
    · rw [hu, hu', Option.isSome_some, Option.isSome_some]
  simp only [Scope.ending, hto.hints, hdefined]

/-! ## Transparency -/

/-- **The guard is not seen.** -/
theorem plain_iff {expanding : List String} {s : Schema} (h : scope.Straight expanding s)
    {result : Noted Shape} :
    scope.Plain site s result ↔ result = scope.classify site expanding s := by
  induction h generalizing result with
  | ends hend => rw [plain_iff_of_end hend, classify_of_end hend]
  | goesOn hs hnew _ ih =>
    rw [plain_iff_of_continues hs, classify_of_continues hs hnew]
    simp only [ih, exists_eq_left]

/-- **Replacing references is not seen.** Fewer definitions are expanded where references are replaced, so
the guard is a smaller one there. -/
theorem classify_inlined (hto : scope.InlinesTo scope') {expanding expanding' : List String}
    {s s' : Schema} (h : scope.Straight expanding s) (hsub : expanding' ⊆ expanding)
    (hs' : scope.Inlined s s') :
    scope'.classify site expanding' s' = scope.classify site expanding s := by
  induction h generalizing expanding' s' with
  | ends hend =>
    obtain rfl := hs'.eq_of_end hend
    rw [classify_of_end hend, classify_of_end (hto.ends hend), hto.ending]
  | @goesOn label expanding s t hs hnew _ ih =>
    rw [classify_of_continues hs hnew]
    obtain ⟨hwrap, ht'⟩ | ⟨t', hs', hwrap, ht'⟩ := hs'.step hto hs
    · rw [ih (List.subset_append_of_subset_right _ hsub) ht', hwrap]
      exact rfl
    · have hnew' : ∀ d ∈ label, d ∉ expanding' := fun d hd hmem => hnew d hd (hsub hmem)
      have hsub' : label.toList ++ expanding' ⊆ label.toList ++ expanding :=
        List.append_subset.2
          ⟨List.subset_append_left _ _, List.subset_append_of_subset_right _ hsub⟩
      rw [classify_of_continues hs' hnew', hwrap, ih hsub' ht']

/-- **Aliases stand for their definitions.** As long as the chain of a schema does not come back to a
definition that is being expanded, the guard changes nothing: classification gives what resolution without
a guard gives, the shape as well as the faults. Nor does it matter which references along the chain are
replaced by what they stand for, in the schema or in the definitions. -/
theorem inlining_transparent (site : Site) {expanding : List String} {s : Schema}
    (h : ∀ definition, ¬ scope.ComesBackTo (expanding, s) definition) :
    (∀ result, scope.Plain site s result ↔ result = scope.classify site expanding s) ∧
    ∀ scope' s', scope.InlinesTo scope' → scope.Inlined s s' →
      scope'.classify site expanding s' = scope.classify site expanding s := by
  have hstraight := straight_of_not_comesBackTo h
  exact ⟨fun _ => plain_iff hstraight,
    fun _ _ hto hs' => classify_inlined hto hstraight (List.Subset.refl _) hs'⟩

/-- An index of trees: where its values come from, and which names there are for them. Only a tree is a
class. -/
def orchard (values : Schema) : Scope where
  definitions := [
    ("index", { additionalProperties := some (.schema values) }),
    ("rows", { items := some { reference := some "#/definitions/entry" } }),
    ("entry", { reference := some "#/definitions/tree" }),
    ("tree", { properties := [("height", { type := some (.one .integer) })] })]
  hints := ⟨[]⟩

/-- The values of the index, by name. -/
def rowsByName : Schema := { reference := some "#/definitions/rows" }

/-- The values of the index, written out down to the reference to the class. -/
def rowsInPlace : Schema := { items := some { reference := some "#/definitions/tree" } }

theorem inlined_index : (orchard rowsByName).Inlined
    { additionalProperties := some (.schema rowsByName) }
    { additionalProperties := some (.schema rowsInPlace) } := by
  have hentry : (orchard rowsByName).Inlined { reference := some "#/definitions/entry" }
      { reference := some "#/definitions/tree" } :=
    .reference (.expand rfl rfl rfl rfl) (.same _)
  have hrows : (orchard rowsByName).Inlined rowsByName rowsInPlace :=
    .reference (.expand rfl rfl rfl rfl) (.items rfl rfl rfl hentry)
  exact .values rfl rfl rfl rfl hrows

theorem orchard_inlinesTo : (orchard rowsByName).InlinesTo (orchard rowsInPlace) := by
  refine ⟨rfl, fun name => ?_⟩
  have hget (values : Schema) : (orchard values).definitions.get? name =
      if name = "index" then some { additionalProperties := some (.schema values) }
      else Fields.get? (orchard values).definitions.tail name := Fields.get?_cons ..
  rw [hget, hget]
  split
  · exact .some (.other rfl inlined_index)
  · exact InlinedDefinition.refl _ _

/-- The index is classified alike by its name and written out, and without a guard. -/
theorem inlining_transparent_orchard :
    let site : Site := ⟨"garden", "trees"⟩
    let s : Schema := { reference := some "#/definitions/index" }
    let s' : Schema := { additionalProperties := some (.schema rowsInPlace) }
    let result : Noted Shape := ⟨.map (.array (.ofClass "Tree")), [], []⟩
    (∀ definition, ¬ (orchard rowsByName).ComesBackTo ([], s) definition) ∧
      (orchard rowsByName).classify site [] s = result ∧
      (orchard rowsByName).Plain site s result ∧
      (orchard rowsInPlace).classify site [] s = result ∧
      (orchard rowsInPlace).classify site [] s' = result := by
  intro site s s' result
  have hrun : ((orchard rowsByName).runFor site 10 (.schema s)).run [] = .ok (result, []) := rfl
  have hresult : (orchard rowsByName).classify site [] s = result :=
    (congrArg Prod.fst (answer_of_runFor (x := ([], .schema s)) hrun)).symm
  have hback : ∀ definition, ¬ (orchard rowsByName).ComesBackTo ([], s) definition := by
    intro definition
    rw [← mem_warnings_classify site, hresult]
    exact List.not_mem_nil
  have hs' : (orchard rowsByName).Inlined s s' := .reference (.expand rfl rfl rfl rfl) inlined_index
  obtain ⟨hplain, hinlined⟩ := inlining_transparent site hback
  exact ⟨hback, hresult, (hplain result).2 hresult.symm,
    (hinlined _ s orchard_inlinesTo (.same s)).trans hresult,
    (hinlined _ s' orchard_inlinesTo hs').trans hresult⟩

end Scope

end Classwright
