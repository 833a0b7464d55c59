import Mathlib.Logic.Relation
import Classwright.Model.Build
import Classwright.Proofs.Json.Induction

/-!
# Chains of classification

The shape of a property is found along a chain of schemas: from an array to its items, from a map to
its values, from a reference to the definition that it stands for. No schema goes on in two ways, so
a chain is a walk and not a search, and at most one reference on it is malformed: the last one.

## The architecture

* **`Onward`**, **`Scope.onward`** — one step of classification as a value: it is done, or it goes on
  with another schema. `Scope.classify` is this step followed by classification
  (`classify_eq_onward`), and every law about it is an induction over steps (`onward_induction`).
* **`Scope.Continues`** — the same steps as a relation on schemas, without a result and without the
  definitions that are being expanded. `Scope.Follows` forgets the label, and `Scope.Advances` adds the
  guard against aliases that come back to themselves.
* **`Scope.LeadsTo`**, **`Scope.ExpandsTo`** — the references that a chain comes to, without and with
  the guard. For malformed references the two are the same (`expandsTo_iff_leadsTo`): a chain that ends
  never comes back to a definition, so the guard cuts off only chains that have no end.
* **`mem_faults_classify`** — classification notes a fault exactly for a malformed reference on its
  chain.
-/

namespace Classwright

/-! ## References -/

/-- A reference of the form that is understood: one segment below the definitions. -/
def NamesDefinition (fragment : String) : Prop :=
  ∃ name : String, name ≠ "" ∧ '/' ∉ name.toList ∧ fragment = "#/definitions/" ++ name

/-- A reference to a definition names it. -/
theorem definitionName?_append {name : String} (hne : name ≠ "") (hslash : '/' ∉ name.toList) :
    definitionName? ("#/definitions/" ++ name) = some name := by
  have hroot : ("#/definitions/" : String).toList = definitionRoot := rfl
  have hdrop : ("#/definitions/" ++ name).toList.drop definitionRoot.length = name.toList := by
    rw [String.toList_append, hroot, List.drop_left]
  have hstart : definitionRoot.isPrefixOf ("#/definitions/" ++ name).toList = true := by
    rw [List.isPrefixOf_iff_prefix, String.toList_append, hroot]
    exact List.prefix_append _ _
  have hnonempty : name.toList ≠ [] := by
    intro hnil
    exact hne (String.toList_inj.1 (hnil.trans String.toList_empty.symm))
  unfold definitionName?
  dsimp only
  rw [hdrop, if_pos ⟨hstart, hnonempty, hslash⟩, String.ofList_toList]

theorem definitionName?_isSome_iff {fragment : String} :
    (definitionName? fragment).isSome = true ↔ NamesDefinition fragment := by
  have hroot : ("#/definitions/" : String).toList = definitionRoot := rfl
  constructor
  · intro h
    unfold definitionName? at h
    dsimp only at h
    split at h
    · next hcond =>
      obtain ⟨⟨rest, hrest⟩, hne, hslash⟩ := List.isPrefixOf_iff_prefix.1 hcond.1, hcond.2
      rw [← hrest, List.drop_left] at hne hslash
      refine ⟨String.ofList rest, ?_, ?_, ?_⟩
      · exact fun he => hne (by simpa using congrArg String.toList he)
      · simpa using hslash
      · rw [← String.toList_inj, String.toList_append, hroot, String.toList_ofList, hrest]
    · cases h
  · rintro ⟨name, hne, hslash, rfl⟩
    rw [definitionName?_append hne hslash]
    rfl

theorem definitionName?_eq_none_iff {fragment : String} :
    definitionName? fragment = none ↔ ¬ NamesDefinition fragment := by
  rw [← definitionName?_isSome_iff, Bool.not_eq_true, Option.isSome_eq_false_iff,
    Option.isNone_iff_eq_none]

/-! ## One step of classification -/

/-- What classification does with a schema. -/
inductive Onward where
  | done (result : Noted Shape)
  /-- It goes on with another schema, whose shape is then part of the result. -/
  | goOn (wrap : Shape → Shape) (expanding : List String) (next : Schema)

def Onward.finish (classify : List String → Schema → Noted Shape) : Onward → Noted Shape
  | done result => result
  | goOn wrap expanding next => (classify expanding next).map wrap

theorem Noted.faults_map {α β : Type} (f : α → β) (x : Noted α) :
    (x.map f).faults = x.faults := rfl

namespace Scope

/-- One step at a reference to a definition. -/
def expand (scope : Scope) (site : Site) (expanding : List String) (definition : String) : Onward :=
  match scope.definitions.get? definition with
  | none => .done ⟨.ofClass (scope.hints.classNameFor definition), [],
      [.unknownDefinition site.schemaId site.property definition]⟩
  | some target =>
    if target.isClass then .done ⟨.ofClass (scope.hints.classNameFor definition), [], []⟩
    else if definition ∈ expanding then
      .done ⟨.untyped, [], [.cyclicAlias site.schemaId site.property definition]⟩
    else .goOn id (definition :: expanding) target

/-- One step of classification. -/
def onward (scope : Scope) (site : Site) (expanding : List String) (s : Schema) : Onward :=
  match s.reference with
  | some fragment =>
    match definitionName? fragment with
    | none => .done ⟨.untyped, [.reference site.schemaId site.property fragment], []⟩
    | some definition => scope.expand site expanding definition
  | none =>
    match s.effectiveType with
    | some .array =>
      match s.items with
      | some items => .goOn .array expanding items
      | none => .done ⟨.array .untyped, [], []⟩
    | some .object =>
      if s.properties.isEmpty then
        match s.additionalProperties with
        | some (.schema value) => .goOn .map expanding value
        | _ => .done ⟨.map .untyped, [], []⟩
      else .done ⟨.map .untyped, [], [.inlineObject site.schemaId site.property]⟩
    | some .string => .done ⟨.scalar (formatPrimitive s.format), [], []⟩
    | some .integer => .done ⟨.scalar .integer, [], []⟩
    | some .number => .done ⟨.scalar .number, [], []⟩
    | some .boolean => .done ⟨.scalar .boolean, [], []⟩
    | some .null | none => .done ⟨.untyped, [], []⟩

variable {scope : Scope} {site : Site}

theorem resolve_eq_expand (expanding : List String) {fragment definition : String}
    (h : definitionName? fragment = some definition) :
    scope.resolve site expanding fragment =
      (scope.expand site expanding definition).finish (scope.classify site) := by
  rw [resolve, h]
  simp only [className?, expand]
  cases hd : scope.definitions.get? definition with
  | none => rfl
  | some target =>
    by_cases hc : target.isClass
    · simp [hc, Onward.finish]
    · by_cases he : definition ∈ expanding
      · simp [hc, he, Onward.finish]
      · simp [hc, he, Onward.finish, Noted.map]

/-- **Classification is one step and the classification of what is ahead.** -/
theorem classify_eq_onward (expanding : List String) (s : Schema) :
    scope.classify site expanding s =
      (scope.onward site expanding s).finish (scope.classify site) := by
  rw [classify, onward]
  cases hr : s.reference with
  | some fragment =>
    dsimp only
    cases hn : definitionName? fragment with
    | none =>
      rw [resolve, hn]
      rfl
    | some definition => exact resolve_eq_expand expanding hn
  | none =>
    dsimp only
    cases ht : s.effectiveType with
    | none => rfl
    | some type =>
      cases type with
      | array => cases hi : s.items <;> rfl
      | object =>
        dsimp only
        by_cases hp : s.properties.isEmpty
        · simp only [hp, Bool.not_true, Bool.false_eq_true, if_false, if_true]
          cases ha : s.additionalProperties with
          | none => rfl
          | some additional => cases additional <;> rfl
        · simp only [hp, Bool.not_false, if_true, Bool.false_eq_true, if_false, Onward.finish]
      | _ => rfl

/-! ## Steps as a relation -/

/-- The schema that classification goes on with. The label is the definition that is expanded, if one
is. -/
inductive Continues (scope : Scope) : Option String → Schema → Schema → Prop where
  /-- From an array to its items. -/
  | items {s t : Schema} (hr : s.reference = none) (ht : s.effectiveType = some .array)
      (hi : s.items = some t) : Continues scope none s t
  /-- From a map to its values. A schema with properties is no map. -/
  | values {s t : Schema} (hr : s.reference = none) (ht : s.effectiveType = some .object)
      (hp : s.properties = []) (ha : s.additionalProperties = some (.schema t)) :
      Continues scope none s t
  /-- From a reference to the definition that it stands for, unless that is a class. -/
  | expand {s t : Schema} {fragment definition : String} (hr : s.reference = some fragment)
      (hn : definitionName? fragment = some definition)
      (hd : scope.definitions.get? definition = some t) (hc : t.isClass = false) :
      Continues scope (some definition) s t

/-- A step, whatever is expanded. -/
def Follows (scope : Scope) (s t : Schema) : Prop := ∃ label, scope.Continues label s t

/-- A step with the definitions that are being expanded, none of which is expanded again. -/
def Advances (scope : Scope) (x y : List String × Schema) : Prop :=
  ∃ label, scope.Continues label x.2 y.2 ∧ (∀ d ∈ label, d ∉ x.1) ∧ y.1 = label.toList ++ x.1

/-- The chain from a schema comes to a reference. -/
def LeadsTo (scope : Scope) (s : Schema) (fragment : String) : Prop :=
  ∃ t, Relation.ReflTransGen scope.Follows s t ∧ t.reference = some fragment

/-- The chain from a schema comes to a reference before it comes back to a definition. -/
def ExpandsTo (scope : Scope) (s : Schema) (fragment : String) : Prop :=
  ∃ y, Relation.ReflTransGen scope.Advances ([], s) y ∧ y.2.reference = some fragment

theorem Continues.unique {label label' : Option String} {s t t' : Schema}
    (h : scope.Continues label s t) (h' : scope.Continues label' s t') :
    label = label' ∧ t = t' := by
  cases h with
  | items hr ht hi =>
    cases h' with
    | items _ _ hi' => exact ⟨rfl, Option.some.inj (hi.symm.trans hi')⟩
    | values _ ht' _ _ => cases ht.symm.trans ht'
    | expand hr' _ _ _ => cases hr.symm.trans hr'
  | values hr ht _ ha =>
    cases h' with
    | items _ ht' _ => cases ht.symm.trans ht'
    | values _ _ _ ha' =>
      cases ha.symm.trans ha'
      exact ⟨rfl, rfl⟩
    | expand hr' _ _ _ => cases hr.symm.trans hr'
  | expand hr hn hd _ =>
    cases h' with
    | items hr' _ _ => cases hr.symm.trans hr'
    | values hr' _ _ _ => cases hr.symm.trans hr'
    | expand hr' hn' hd' _ =>
      cases hr.symm.trans hr'
      cases hn.symm.trans hn'
      cases hd.symm.trans hd'
      exact ⟨rfl, rfl⟩

/-- A malformed reference is the end of its chain. -/
theorem Continues.names {label : Option String} {s t : Schema} {fragment : String}
    (h : scope.Continues label s t) (hr : s.reference = some fragment) :
    NamesDefinition fragment := by
  cases h with
  | items hr' _ _ => cases hr.symm.trans hr'
  | values hr' _ _ _ => cases hr.symm.trans hr'
  | expand hr' hn _ _ =>
    cases hr.symm.trans hr'
    rw [← definitionName?_isSome_iff, hn]
    rfl

theorem advances_of_onward {expanding expanding' : List String} {s t : Schema}
    {wrap : Shape → Shape} (h : scope.onward site expanding s = .goOn wrap expanding' t) :
    scope.Advances (expanding, s) (expanding', t) := by
  unfold onward at h
  split at h
  · next fragment hr =>
    split at h
    · cases h
    · next definition hn =>
      unfold expand at h
      split at h
      · cases h
      · next hd =>
        split at h
        · cases h
        · next hc =>
          split at h
          · cases h
          · next he =>
            cases h
            refine ⟨some definition, .expand hr hn hd (by simpa using hc), ?_, rfl⟩
            rintro _ ⟨⟩
            exact he
  · next hr =>
    split at h
    · next ht =>
      split at h
      · next hi =>
        cases h
        exact ⟨none, .items hr ht hi, fun d hd => absurd hd (Option.not_mem_none d), rfl⟩
      · cases h
    · next ht =>
      split at h
      · next hp =>
        split at h
        · next ha =>
          cases h
          exact ⟨none, .values hr ht (List.isEmpty_iff.1 hp) ha,
            fun d hd => absurd hd (Option.not_mem_none d), rfl⟩
        · cases h
      · cases h
    all_goals cases h

theorem onward_of_advances (site : Site) {expanding : List String} {s : Schema}
    {y : List String × Schema} (h : scope.Advances (expanding, s) y) :
    ∃ wrap, scope.onward site expanding s = .goOn wrap y.1 y.2 := by
  obtain ⟨expanding', t⟩ := y
  obtain ⟨label, hs, hfresh, heq⟩ := h
  dsimp only at hs hfresh heq
  subst heq
  cases hs with
  | items hr ht hi => exact ⟨.array, by simp [onward, hr, ht, hi]⟩
  | values hr ht hp ha => exact ⟨.map, by simp [onward, hr, ht, hp, ha]⟩
  | @expand _ _ _ definition hr hn hd hc =>
    have hnew : definition ∉ expanding := hfresh definition rfl
    exact ⟨id, by simp [onward, Scope.expand, hr, hn, hd, hc, hnew]⟩

/-- A walk goes nowhere from where classification is done. -/
theorem walk_iff_of_done {expanding : List String} {s : Schema} {result : Noted Shape}
    (h : scope.onward site expanding s = .done result) {y : List String × Schema} :
    Relation.ReflTransGen scope.Advances (expanding, s) y ↔ y = (expanding, s) := by
  refine ⟨fun hwalk => ?_, fun heq => heq ▸ .refl⟩
  rcases Relation.ReflTransGen.cases_head hwalk with heq | ⟨_, hstep, -⟩
  · exact heq.symm
  · obtain ⟨wrap, hgoOn⟩ := onward_of_advances site hstep
    cases h.symm.trans hgoOn

/-- Elsewhere it goes on with the schema ahead. -/
theorem walk_iff_of_goOn {expanding expanding' : List String} {s t : Schema} {wrap : Shape → Shape}
    (h : scope.onward site expanding s = .goOn wrap expanding' t) {y : List String × Schema} :
    Relation.ReflTransGen scope.Advances (expanding, s) y ↔
      y = (expanding, s) ∨ Relation.ReflTransGen scope.Advances (expanding', t) y := by
  constructor
  · intro hwalk
    rcases Relation.ReflTransGen.cases_head hwalk with heq | ⟨_, hstep, hrest⟩
    · exact Or.inl heq.symm
    · obtain ⟨wrap', hgoOn⟩ := onward_of_advances site hstep
      cases h.symm.trans hgoOn
      exact Or.inr hrest
  · rintro (rfl | hrest)
    · exact .refl
    · exact hrest.head (advances_of_onward h)

/-- A step goes to a smaller schema or leaves one definition fewer to expand. -/
theorem Advances.decreases {x y : List String × Schema} (h : scope.Advances x y) :
    Prod.Lex (· < ·) (· < ·) (scope.unexpanded y.1, sizeOf y.2)
      (scope.unexpanded x.1, sizeOf x.2) := by
  obtain ⟨label, hs, hfresh, heq⟩ := h
  rw [heq]
  cases hs with
  | items _ _ hi => exact .right _ (Schema.sizeOf_items_lt hi)
  | values _ _ _ ha => exact .right _ (Schema.sizeOf_additional_lt ha)
  | expand _ _ hd _ => exact .left _ _ (unexpanded_lt hd (by simpa using hfresh _ rfl))

/-- **Induction over steps.** -/
theorem onward_induction (scope : Scope) (site : Site) {motive : List String → Schema → Prop}
    (step : ∀ expanding s, (∀ wrap expanding' t,
      scope.onward site expanding s = .goOn wrap expanding' t → motive expanding' t) →
      motive expanding s) (expanding : List String) (s : Schema) : motive expanding s := by
  refine step expanding s fun wrap expanding' t h => ?_
  have hless := (advances_of_onward h).decreases
  exact onward_induction scope site step expanding' t
termination_by (scope.unexpanded expanding, sizeOf s)
decreasing_by exact hless

/-! ## The guard -/

/-- A chain with an end has no loop: the walk is determined, and a loop would go on for ever. -/
theorem not_transGen_self {s t : Schema} (h : Relation.ReflTransGen scope.Follows s t)
    (hend : ∀ u, ¬ scope.Follows t u) : ¬ Relation.TransGen scope.Follows s s := by
  induction h using Relation.ReflTransGen.head_induction_on with
  | refl =>
    intro hloop
    obtain ⟨u, hu, -⟩ := Relation.TransGen.head'_iff.1 hloop
    exact hend u hu
  | head hstep _ ih =>
    intro hloop
    obtain ⟨u, hu, hback⟩ := Relation.TransGen.head'_iff.1 hloop
    -- the loop starts with the only step there is, so it is a loop at the next schema, too
    obtain ⟨_, hu⟩ := hu
    obtain ⟨_, hs⟩ := hstep
    obtain ⟨rfl, rfl⟩ := hu.unique hs
    exact ih (Relation.TransGen.tail' hback ⟨_, hs⟩)

theorem Advances.follows {x y : List String × Schema} (h : scope.Advances x y) :
    scope.Follows x.2 y.2 := by
  obtain ⟨label, hs, -, -⟩ := h
  exact ⟨label, hs⟩

/-- Where the chain ends, the guard stops nothing. Every definition that is being expanded was passed
on the way, so coming back to it would close a loop. -/
theorem exists_advances {s t : Schema} (h : Relation.ReflTransGen scope.Follows s t)
    (hend : ∀ u, ¬ scope.Follows t u) {expanding : List String}
    (hpassed : ∀ d ∈ expanding, ∀ target, scope.definitions.get? d = some target →
      Relation.ReflTransGen scope.Follows target s) :
    ∃ expanding', Relation.ReflTransGen scope.Advances (expanding, s) (expanding', t) := by
  induction h using Relation.ReflTransGen.head_induction_on generalizing expanding with
  | refl => exact ⟨expanding, .refl⟩
  | @head s next hstep hrest ih =>
    obtain ⟨label, hs⟩ := hstep
    have hfresh : ∀ d ∈ label, d ∉ expanding := by
      rintro d hd hmem
      cases hs with
      | items _ _ _ => cases hd
      | values _ _ _ _ => cases hd
      | expand hr hn hget hc =>
        cases hd
        have hback := hpassed d hmem _ hget
        exact not_transGen_self hrest hend (.tail' hback ⟨_, .expand hr hn hget hc⟩)
    have hpassed' : ∀ d ∈ label.toList ++ expanding, ∀ target,
        scope.definitions.get? d = some target →
        Relation.ReflTransGen scope.Follows target next := by
      intro d hd target htarget
      rcases List.mem_append.1 hd with hd | hd
      · cases hs with
        | items _ _ _ => cases hd
        | values _ _ _ _ => cases hd
        | expand _ _ hget _ =>
          cases List.mem_singleton.1 hd
          cases hget.symm.trans htarget
          exact .refl
      · exact (hpassed d hd target htarget).tail ⟨label, hs⟩
    obtain ⟨expanding', hwalk⟩ := ih hpassed'
    exact ⟨expanding', hwalk.head ⟨label, hs, hfresh, rfl⟩⟩

/-- **The guard hides no malformed reference.** -/
theorem expandsTo_iff_leadsTo {s : Schema} {fragment : String} (hbad : ¬ NamesDefinition fragment) :
    scope.ExpandsTo s fragment ↔ scope.LeadsTo s fragment := by
  constructor
  · rintro ⟨y, hwalk, hr⟩
    exact ⟨y.2, hwalk.lift Prod.snd fun _ _ h => h.follows, hr⟩
  · rintro ⟨t, hwalk, hr⟩
    have hend : ∀ u, ¬ scope.Follows t u := by
      rintro u ⟨label, hs⟩
      exact hbad (hs.names hr)
    obtain ⟨expanding', hguarded⟩ :
        ∃ expanding', Relation.ReflTransGen scope.Advances ([], s) (expanding', t) :=
      exists_advances hwalk hend nofun
    exact ⟨_, hguarded, hr⟩

/-! ## What classification notes -/

/-- Where classification is done it has noted the malformed reference that it stands at, if it stands
at one. -/
theorem faults_of_done {expanding : List String} {s : Schema} {result : Noted Shape}
    (h : scope.onward site expanding s = .done result) (fault : ModelFault) :
    fault ∈ result.faults ↔ ∃ fragment, s.reference = some fragment ∧
      ¬ NamesDefinition fragment ∧ fault = .reference site.schemaId site.property fragment := by
  unfold onward at h
  split at h
  · next fragment hr =>
    split at h
    · next hn =>
      cases h
      have hbad := definitionName?_eq_none_iff.1 hn
      simp [hr, hbad]
    · next definition hn =>
      have hgood : NamesDefinition fragment := by
        rw [← definitionName?_isSome_iff, hn]
        rfl
      have hnone : result.faults = [] := by
        unfold expand at h
        split at h
        · cases h
          rfl
        · split at h
          · cases h
            rfl
          split at h
          · cases h
            rfl
          · cases h
      simp [hr, hgood, hnone]
  · next hr =>
    have hnone : result.faults = [] := by
      repeat' split at h
      all_goals
        cases h
        try rfl
    simp [hr, hnone]

/-- **Classification notes the malformed references on its chain**, and nothing else is a fault. -/
theorem mem_faults_classify {expanding : List String} {s : Schema} {fault : ModelFault} :
    fault ∈ (scope.classify site expanding s).faults ↔
      ∃ y fragment, Relation.ReflTransGen scope.Advances (expanding, s) y ∧
        y.2.reference = some fragment ∧ ¬ NamesDefinition fragment ∧
        fault = .reference site.schemaId site.property fragment := by
  induction expanding, s using onward_induction scope site with
  | step expanding s ih =>
    rw [classify_eq_onward]
    cases honward : scope.onward site expanding s with
    | done result =>
      rw [Onward.finish, faults_of_done honward]
      simp only [walk_iff_of_done honward, exists_and_left, exists_eq_left]
    | goOn wrap expanding' t =>
      rw [Onward.finish, Noted.faults_map, ih wrap expanding' t honward]
      simp only [walk_iff_of_goOn honward]
      constructor
      · rintro ⟨y, fragment, hwalk, hend⟩
        exact ⟨y, fragment, Or.inr hwalk, hend⟩
      · rintro ⟨y, fragment, rfl | hwalk, hr, hbad, rfl⟩
        -- a schema that goes on is at no malformed reference
        · obtain ⟨label, hs, -, -⟩ := advances_of_onward honward
          exact absurd (hs.names hr) hbad
        · exact ⟨y, fragment, hwalk, hr, hbad, rfl⟩

end Scope

end Classwright
