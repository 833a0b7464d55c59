import Classwright.Proofs.Model.ClassNames
import Classwright.Proofs.Model.Inlining

/-!
# Value types that name a definition

A hint for a dictionary may name the type of the values: a primitive, or a definition. The name of a
definition should mean what a reference to the definition means. For a class it does, whatever name the
class is given. For an alias it does not: a reference is replaced by what the alias stands for, while
the hint gives a class with the name of the alias, and no such class is generated.

* **`Scope.StandsFor`** — the class at the end of an alias that is made of references only.
* **`classify_eq_ofClass_iff`** — a reference is classified as a class exactly along such a chain.
* **`property_dictionary_definition`** — so hint and reference agree on an alias only by accident, if the
  class that it stands for has the name that the alias would be given.
-/

namespace Classwright

namespace Scope

variable {scope : Scope} {site : Site}

/-! ## What an alias stands for -/

/-- A definition stands for the class of another one: it is that class, or it is a reference to a
definition that stands for it. The class need not be defined. -/
inductive StandsFor (scope : Scope) : String → String → Prop where
  | ofClass {definition : String}
      (h : ∀ t, scope.definitions.get? definition = some t → t.isClass = true) :
      StandsFor scope definition definition
  | reference {definition next last fragment : String} {t : Schema}
      (hd : scope.definitions.get? definition = some t) (hc : t.isClass = false)
      (hr : t.reference = some fragment) (hn : definitionName? fragment = some next)
      (h : StandsFor scope next last) : StandsFor scope definition last

/-- The chain of a reference to a class ends there. -/
theorem not_follows_of_isClass {s : Schema} {fragment definition : String}
    (hr : s.reference = some fragment) (hn : definitionName? fragment = some definition)
    (hclass : ∀ t, scope.definitions.get? definition = some t → t.isClass = true) :
    ∀ t, ¬ scope.Follows s t := by
  rintro t ⟨label, hs⟩
  cases hs with
  | items hr' _ _ => cases hr.symm.trans hr'
  | values hr' _ _ _ => cases hr.symm.trans hr'
  | expand hr' hn' hd hc =>
    cases hr.symm.trans hr'
    cases hn.symm.trans hn'
    cases (hclass _ hd).symm.trans hc

/-- Without a guard a reference to an alias is the class that the alias stands for. -/
theorem plain_of_standsFor {definition last : String} (h : scope.StandsFor definition last)
    (site : Site) {s : Schema} {fragment : String} (hr : s.reference = some fragment)
    (hn : definitionName? fragment = some definition) :
    ∃ result, scope.Plain site s result ∧
      result.value = .ofClass (scope.hints.classNameFor last) := by
  induction h generalizing s fragment with
  | ofClass hclass =>
    refine ⟨_, .ends (not_follows_of_isClass hr hn hclass), ?_⟩
    simp only [ending, hr, hn]
  | reference hd hc hr' hn' _ ih =>
    obtain ⟨result, hplain, hvalue⟩ := ih hr' hn'
    have hs : scope.Continues (some _) s _ := .expand hr hn hd hc
    refine ⟨result.map s.wrap, .goesOn hs hplain, ?_⟩
    rw [wrap_of_reference hs]
    exact hvalue

/-- What is resolved without a guard has an end. -/
theorem Plain.exists_end {s : Schema} {result : Noted Shape} (h : scope.Plain site s result) :
    ∃ t, Relation.ReflTransGen scope.Follows s t ∧ ∀ u, ¬ scope.Follows t u := by
  induction h with
  | ends hend => exact ⟨_, .refl, hend⟩
  | goesOn hs _ ih =>
    obtain ⟨t, hwalk, hend⟩ := ih
    exact ⟨t, hwalk.head ⟨_, hs⟩, hend⟩

theorem straight_of_walk {x y : List String × Schema}
    (h : Relation.ReflTransGen scope.Advances x y) (hend : ∀ u, ¬ scope.Follows y.2 u) :
    scope.Straight x.1 x.2 := by
  induction h using Relation.ReflTransGen.head_induction_on with
  | refl => exact .ends hend
  | head hstep _ ih =>
    obtain ⟨label, hs, hnew, heq⟩ := hstep
    rw [heq] at ih
    exact .goesOn hs hnew ih

/-- So the guard finds the same. -/
theorem Plain.eq_classify {s : Schema} {result : Noted Shape} (h : scope.Plain site s result) :
    result = scope.classify site [] s := by
  obtain ⟨t, hwalk, hend⟩ := h.exists_end
  obtain ⟨expanding, hguarded⟩ : ∃ expanding,
      Relation.ReflTransGen scope.Advances ([], s) (expanding, t) := exists_advances hwalk hend nofun
  exact (plain_iff (straight_of_walk hguarded hend)).1 h

/-- A schema that comes back to a definition is untyped. -/
theorem value_classify_of_mem {definition : String} {expanding : List String} {s t : Schema}
    (hs : scope.Continues (some definition) s t) (hmem : definition ∈ expanding) :
    (scope.classify site expanding s).value = .untyped := by
  cases hs with
  | expand hr hn hd hc =>
    simp [classify_eq_onward, onward, Scope.expand, Onward.finish, hr, hn, hd, hc, hmem]

/-- **Only a chain of references gives a class.** By induction over steps: an array or a map on the way
would be part of the shape. -/
theorem exists_standsFor {expanding : List String} {s : Schema} {className : String}
    (h : (scope.classify site expanding s).value = .ofClass className) :
    ∃ fragment definition last, s.reference = some fragment ∧
      definitionName? fragment = some definition ∧ scope.StandsFor definition last ∧
      className = scope.hints.classNameFor last := by
  induction expanding, s using onward_induction scope site with
  | step expanding s ih =>
    by_cases hgoesOn : ∃ t, scope.Follows s t
    · obtain ⟨t, label, hs⟩ := hgoesOn
      by_cases hnew : ∀ d ∈ label, d ∉ expanding
      · rw [classify_of_continues hs hnew] at h
        have honward : scope.onward site expanding s = .goOn _ _ t := onward_of_continues hs hnew
        cases hs with
        | items hr ht hi =>
          simp only [Noted.map, Schema.wrap, hr, ht] at h
          cases h
        | values hr ht hp ha =>
          simp only [Noted.map, Schema.wrap, hr, ht] at h
          cases h
        | expand hr hn hd hc =>
          have hs : scope.Continues (some _) s t := .expand hr hn hd hc
          rw [wrap_of_reference hs] at h
          obtain ⟨fragment, next, last, hr', hn', hlast, rfl⟩ := ih _ _ _ honward h
          exact ⟨_, _, last, hr, hn, .reference hd hc hr' hn' hlast, rfl⟩
      · push Not at hnew
        obtain ⟨definition, rfl, hmem⟩ := hnew
        rw [value_classify_of_mem hs hmem] at h
        cases h
    · have hend : ∀ t, ¬ scope.Follows s t := fun t ht => hgoesOn ⟨t, ht⟩
      rw [classify_of_end hend] at h
      cases hr : s.reference with
      | none =>
        simp only [ending, hr] at h
        split at h <;> cases h
      | some fragment =>
        cases hn : definitionName? fragment with
        | none =>
          simp only [ending, hr, hn] at h
          cases h
        | some definition =>
          simp only [ending, hr, hn, Shape.ofClass.injEq] at h
          refine ⟨fragment, definition, definition, rfl, hn, .ofClass fun t ht => ?_, h.symm⟩
          by_contra hc
          exact hend t ⟨_, .expand hr hn ht (by simpa using hc)⟩

/-- **Which references are classified as a class**, and as which one. -/
theorem classify_eq_ofClass_iff {s : Schema} {fragment definition : String}
    (hr : s.reference = some fragment) (hn : definitionName? fragment = some definition)
    {className : String} :
    (scope.classify site [] s).value = .ofClass className ↔
      ∃ last, scope.StandsFor definition last ∧ className = scope.hints.classNameFor last := by
  constructor
  · intro h
    obtain ⟨fragment', definition', last, hr', hn', hlast⟩ := exists_standsFor h
    cases hr.symm.trans hr'
    cases hn.symm.trans hn'
    exact ⟨last, hlast⟩
  · rintro ⟨last, hlast, rfl⟩
    obtain ⟨result, hplain, hvalue⟩ := plain_of_standsFor hlast site hr hn
    rw [← hplain.eq_classify, hvalue]

/-! ## Hints and references -/

/-- A property with a hint for a dictionary of a definition. -/
theorem shape_property_of_dictionary {schemaId jsonName definition : String} {owner p : Schema}
    (hhint : scope.hints.dictionary? schemaId jsonName = some (some definition))
    (hkeyword : Primitive.ofKeyword? definition = none) :
    (scope.property schemaId owner jsonName p).value.shape =
      .map (.ofClass (scope.hints.classNameFor definition)) := by
  simp only [property, propertyShape, hhint, Noted.map, keywordShape_eq scope hkeyword]

/-- A property without a hint for a dictionary. -/
theorem shape_property_of_free {schemaId jsonName : String} {owner p : Schema}
    (hfree : scope.hints.dictionary? schemaId jsonName = none) :
    (scope.property schemaId owner jsonName p).value.shape =
      (scope.classify ⟨schemaId, jsonName⟩ [] p).value := by
  simp only [property, propertyShape, hfree, Noted.map]

/-- **A value type that names a class means that class.** A property with a hint for a dictionary of a
definition is a map to what a property that refers to the definition has, if the definition is a class.
For an alias the values are of a class named after the alias itself. That is what a reference to it has
only if the alias stands for a class of that very name. -/
theorem property_dictionary_definition {schemaId jsonName schemaId' jsonName' definition : String}
    {owner p owner' p' target : Schema}
    (hhint : scope.hints.dictionary? schemaId jsonName = some (some definition))
    (hkeyword : Primitive.ofKeyword? definition = none)
    (htarget : scope.definitions.get? definition = some target) (hname : definition ≠ "")
    (hslash : '/' ∉ definition.toList)
    (hfree : scope.hints.dictionary? schemaId' jsonName' = none)
    (hreference : p'.reference = some ("#/definitions/" ++ definition)) :
    let hinted := (scope.property schemaId owner jsonName p).value.shape
    let declared := (scope.property schemaId' owner' jsonName' p').value.shape
    (target.isClass = true → hinted = .map declared) ∧
    (target.isClass = false →
      hinted = .map (.ofClass (scope.hints.classNameFor definition)) ∧
      (hinted = .map declared ↔ ∃ last, scope.StandsFor definition last ∧
        scope.hints.classNameFor definition = scope.hints.classNameFor last)) := by
  intro hinted declared
  have hhinted : hinted = .map (.ofClass (scope.hints.classNameFor definition)) :=
    shape_property_of_dictionary hhint hkeyword
  have hagree : hinted = .map declared ↔ ∃ last, scope.StandsFor definition last ∧
      scope.hints.classNameFor definition = scope.hints.classNameFor last := by
    rw [hhinted, Shape.map.injEq, eq_comm]
    simp only [declared, shape_property_of_free hfree]
    exact classify_eq_ofClass_iff hreference (definitionName?_append hname hslash)
  refine ⟨fun hclass => hagree.2 ⟨definition, .ofClass fun t ht => ?_, rfl⟩,
    fun _ => ⟨hhinted, hagree⟩⟩
  cases htarget.symm.trans ht
  exact hclass

/-- A class, which a hint renames, and an alias for lists of strings, each the value type of a
dictionary. -/
def nursery : Scope where
  definitions := [
    ("tree", { properties := [("height", { type := some (.one .integer) })] }),
    ("labels", { items := some { type := some (.one .string) } })]
  hints := ⟨[
    ("tree", [.className "Plant"]),
    ("garden.plants", [.dictionary (some "tree")]),
    ("garden.signs", [.dictionary (some "labels")])]⟩

/-- The hint for plants means the class, and the one for signs does not mean the lists. -/
theorem property_dictionary_definition_nursery :
    let shapeOf (jsonName : String) (p : Schema) : Shape :=
      (nursery.property "garden" {} jsonName p).value.shape
    shapeOf "plants" {} = .map (.ofClass "Plant") ∧
      shapeOf "plants" {} = .map (shapeOf "plant" { reference := some "#/definitions/tree" }) ∧
      shapeOf "signs" {} = .map (.ofClass "Labels") ∧
      shapeOf "signs" {} ≠ .map (shapeOf "sign" { reference := some "#/definitions/labels" }) := by
  intro shapeOf
  have hplants : nursery.hints.dictionary? "garden" "plants" = some (some "tree") := rfl
  have hsigns : nursery.hints.dictionary? "garden" "signs" = some (some "labels") := rfl
  have hplant : nursery.hints.dictionary? "garden" "plant" = none := rfl
  have hsign : nursery.hints.dictionary? "garden" "sign" = none := rfl
  obtain ⟨hlabels, hagree⟩ : shapeOf "signs" {} = .map (.ofClass (nursery.hints.classNameFor "labels")) ∧
      (shapeOf "signs" {} = .map (shapeOf "sign" { reference := some "#/definitions/labels" }) ↔ _) :=
    (property_dictionary_definition hsigns rfl rfl (by decide) (by decide) hsign rfl).2 rfl
  refine ⟨rfl, ?_, ?_, fun heq => ?_⟩
  · exact (property_dictionary_definition hplants rfl rfl (by decide) (by decide) hplant rfl).1 rfl
  · exact hlabels.trans (by decide +kernel)
  · -- a list is neither a class nor a reference
    obtain ⟨last, hlast, -⟩ := hagree.1 heq
    cases hlast with
    | ofClass h => exact absurd (h _ rfl) (by decide)
    | reference hd _ hr _ _ =>
      cases hd
      cases hr

end Scope

end Classwright
