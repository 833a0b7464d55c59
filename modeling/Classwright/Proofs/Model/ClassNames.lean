import Classwright.Proofs.Model.Faults

/-!
# Names of classes in a model

The name of a class stands in three places of a model: at the class itself, in the shapes of properties,
and in their comparisons. In a shape it comes from a definition that the property names, through a chain
of classification or through a hint for a dictionary, and it is looked up in the hints each time.

## The architecture

* **`Shape.mapNames`**, up to **`ClassModel.mapNames`** — changes the names of classes and nothing else.
* **`Scope.RefersTo`**, **`Scope.Names`** — the definitions whose class a chain, or a property, comes to.
* **`classify_mapNames`**, **`noted_mapNames`** — two scopes with the same definitions take the same steps,
  so what they give differs in names only, and only in those of definitions that are named.
* **`mem_classNames_property`** — so every name in a property is that of a definition that it names.
-/

namespace Classwright

/-! ## Names in shapes and comparisons -/

namespace Shape

/-- The classes that a shape names. -/
def classNames : Shape → List String
  | scalar _ => []
  | ofClass name => [name]
  | array element => element.classNames
  | map element => element.classNames

/-- Changes the names of classes. -/
def mapNames (f : String → String) : Shape → Shape
  | scalar p => scalar p
  | ofClass name => ofClass (f name)
  | array element => array (element.mapNames f)
  | map element => map (element.mapNames f)

theorem mapNames_eq_self_iff {f : String → String} {s : Shape} :
    s.mapNames f = s ↔ ∀ name ∈ s.classNames, f name = name := by
  induction s with
  | scalar p => simp [mapNames, classNames]
  | ofClass name => simp [mapNames, classNames]
  | array element ih => simpa [mapNames, classNames] using ih
  | map element ih => simpa [mapNames, classNames] using ih

@[simp] theorem mapNames_id (s : Shape) : s.mapNames id = s :=
  mapNames_eq_self_iff.2 fun _ _ => rfl

end Shape

namespace Comparison

/-- The classes that a comparison names. A comparer is no class. -/
def classNames : Comparison → List String
  | value => []
  | sequence element => element.classNames
  | unordered element => element.classNames
  | structural className => [className]
  | custom _ => []

/-- Changes the names of classes. -/
def mapNames (f : String → String) : Comparison → Comparison
  | value => value
  | sequence element => sequence (element.mapNames f)
  | unordered element => unordered (element.mapNames f)
  | structural className => structural (f className)
  | custom comparer => custom comparer

@[simp] theorem mapNames_id (c : Comparison) : c.mapNames id = c := by
  induction c with
  | sequence element ih => rw [mapNames, ih]
  | unordered element ih => rw [mapNames, ih]
  | _ => rfl

end Comparison

theorem Shape.classNames_comparison (s : Shape) : s.comparison.classNames = s.classNames := by
  induction s with
  | scalar p => rfl
  | ofClass name => rfl
  | array element ih => exact ih
  | map element ih => exact ih

theorem Shape.comparison_mapNames (f : String → String) (s : Shape) :
    (s.mapNames f).comparison = s.comparison.mapNames f := by
  induction s with
  | scalar p => rfl
  | ofClass name => rfl
  | array element ih => exact congrArg Comparison.sequence ih
  | map element ih => exact congrArg Comparison.unordered ih

theorem Shape.kind_mapNames (f : String → String) (s : Shape) : (s.mapNames f).kind = s.kind := by
  cases s <;> rfl

theorem Shape.arrayDepth_mapNames (f : String → String) (s : Shape) :
    (s.mapNames f).arrayDepth = s.arrayDepth := by
  induction s with
  | array element ih => exact congrArg (· + 1) ih
  | _ => rfl

theorem Shape.containsClass_mapNames (f : String → String) (s : Shape) :
    (s.mapNames f).containsClass = s.containsClass := by
  induction s with
  | scalar p => rfl
  | ofClass name => rfl
  | array element ih => exact ih
  | map element ih => exact ih

/-- Changes the names of classes in a property. -/
def Property.mapNames (f : String → String) (p : Property) : Property :=
  { p with shape := p.shape.mapNames f, comparison := p.comparison.mapNames f }

@[simp] theorem Property.mapNames_id (p : Property) : p.mapNames id = p := by
  simp [mapNames]

/-- Changes the names of classes in a class, its own name included. -/
def ClassModel.mapNames (f : String → String) (c : ClassModel) : ClassModel :=
  { c with name := f c.name, properties := c.properties.map (Property.mapNames f) }

/-! ## Definitions that are named -/

namespace Scope

/-- The chain from a schema ends at a reference to a definition that is not expanded: a class, or one
that does not exist. -/
def RefersTo (scope : Scope) (expanding : List String) (s : Schema) (definition : String) : Prop :=
  ∃ y fragment, Relation.ReflTransGen scope.Advances (expanding, s) y ∧
    y.2.reference = some fragment ∧ definitionName? fragment = some definition ∧
    ∀ target, scope.definitions.get? definition = some target → target.isClass = true

/-- A property names a definition whose class its values belong to. -/
inductive Names (scope : Scope) (site : Site) (s : Schema) (definition : String) : Prop where
  /-- Its chain ends there. -/
  | reference {start : Schema} (hstart : scope.start? site s = some start)
      (hto : scope.RefersTo [] start definition)
  /-- A hint says that it is a map with such values. -/
  | valueType (hhint : scope.hints.dictionary? site.schemaId site.property = some (some definition))
      (hkeyword : Primitive.ofKeyword? definition = none)

end Scope

/-! ## Classification in two scopes -/

namespace Scope

variable {x y : Scope} {f : String → String} {site : Site}

/-- Two scopes treat a reference alike. The class that it gives has a name of its own in each. -/
theorem finish_expand_mapNames (hd : y.definitions = x.definitions) {expanding : List String}
    {definition : String}
    (hname : (∀ target, x.definitions.get? definition = some target → target.isClass = true) →
      y.hints.classNameFor definition = f (x.hints.classNameFor definition))
    (hnext : ∀ target, x.definitions.get? definition = some target → target.isClass = false →
      definition ∉ expanding → y.classify site (definition :: expanding) target =
        (x.classify site (definition :: expanding) target).map (Shape.mapNames f)) :
    (y.expand site expanding definition).finish (y.classify site) =
      ((x.expand site expanding definition).finish (x.classify site)).map (Shape.mapNames f) := by
  unfold expand
  rw [hd]
  cases hget : x.definitions.get? definition with
  | none =>
    dsimp only [Onward.finish]
    rw [hname (by simp [hget])]
    rfl
  | some target =>
    dsimp only
    by_cases hc : target.isClass
    · rw [if_pos hc, if_pos hc]
      dsimp only [Onward.finish]
      rw [hname (by simp [hget, hc])]
      rfl
    · rw [if_neg hc, if_neg hc]
      by_cases he : definition ∈ expanding
      · rw [if_pos he]
        rfl
      · rw [if_neg he]
        exact congrArg (Noted.map id) (hnext target hget (by simpa using hc) he)

/-- A step goes the same way in two scopes with the same definitions. What it finds differs in the name
of a class at most. -/
theorem finish_onward_mapNames (hd : y.definitions = x.definitions) {expanding : List String}
    {s : Schema}
    (hname : ∀ definition, x.RefersTo expanding s definition →
      y.hints.classNameFor definition = f (x.hints.classNameFor definition))
    (hnext : ∀ expanding' t, x.Advances (expanding, s) (expanding', t) →
      y.classify site expanding' t = (x.classify site expanding' t).map (Shape.mapNames f)) :
    (y.onward site expanding s).finish (y.classify site) =
      ((x.onward site expanding s).finish (x.classify site)).map (Shape.mapNames f) := by
  have hplain (t : Schema) (h : x.Continues none s t) :
      y.classify site expanding t = (x.classify site expanding t).map (Shape.mapNames f) :=
    hnext expanding t ⟨none, h, fun d hd => absurd hd (Option.not_mem_none d), rfl⟩
  unfold onward
  cases hr : s.reference with
  | some fragment =>
    dsimp only
    cases hn : definitionName? fragment with
    | none => rfl
    | some definition =>
      refine finish_expand_mapNames hd (fun hclass => ?_) fun target hget hc he => ?_
      · exact hname definition ⟨_, fragment, .refl, hr, hn, hclass⟩
      · refine hnext _ _ ⟨some definition, .expand hr hn hget hc, ?_, rfl⟩
        rintro _ ⟨⟩
        exact he
  | none =>
    dsimp only
    cases ht : s.effectiveType with
    | none => rfl
    | some type =>
      cases type with
      | array =>
        dsimp only
        cases hi : s.items with
        | none => rfl
        | some items => exact congrArg (Noted.map Shape.array) (hplain items (.items hr ht hi))
      | object =>
        dsimp only
        by_cases hp : s.properties.isEmpty
        · rw [if_pos hp]
          cases ha : s.additionalProperties with
          | none => rfl
          | some additional =>
            cases additional with
            | flag allowed => rfl
            | schema value =>
              exact congrArg (Noted.map Shape.map)
                (hplain value (.values hr ht (List.isEmpty_iff.1 hp) ha))
        · rw [if_neg hp]
          rfl
      | _ => rfl

/-- **Classification takes the same steps in two scopes with the same definitions.** -/
theorem classify_mapNames (hd : y.definitions = x.definitions) {expanding : List String}
    {s : Schema}
    (hname : ∀ definition, x.RefersTo expanding s definition →
      y.hints.classNameFor definition = f (x.hints.classNameFor definition)) :
    y.classify site expanding s = (x.classify site expanding s).map (Shape.mapNames f) := by
  induction expanding, s using onward_induction x site with
  | step expanding s ih =>
    rw [classify_eq_onward, classify_eq_onward]
    refine finish_onward_mapNames hd hname fun expanding' t hstep => ?_
    obtain ⟨wrap, hgoOn⟩ := onward_of_advances site hstep
    refine ih wrap expanding' t hgoOn fun definition hto => hname definition ?_
    obtain ⟨z, fragment, hwalk, hend⟩ := hto
    exact ⟨z, fragment, hwalk.head hstep, hend⟩

end Scope

/-! ## Properties and classes in two scopes -/

/-- Whether two tables say the same about a property. -/
structure HintTable.SameProperty (x y : HintTable) (schemaId property : String) : Prop where
  propertyName : y.propertyName? schemaId property = x.propertyName? schemaId property
  comparer : y.comparer? schemaId property = x.comparer? schemaId property
  dictionary : y.dictionary? schemaId property = x.dictionary? schemaId property
  modifiers : y.modifiers? schemaId property = x.modifiers? schemaId property

theorem HintTable.SameProperty.of_get {x y : HintTable} {schemaId property : String}
    (h : y.get (propertyKey schemaId property) = x.get (propertyKey schemaId property)) :
    x.SameProperty y schemaId property := by
  constructor
  · rw [propertyName?, propertyName?, forProperty, forProperty, h]
  · rw [comparer?, comparer?, forProperty, forProperty, h]
  · rw [dictionary?, dictionary?, forProperty, forProperty, h]
  · rw [modifiers?, modifiers?, forProperty, forProperty, h]

/-- Changing each result changes all of them. -/
theorem Noted.collect_map {α β : Type} (f : α → β) (xs : List (Noted α)) :
    Noted.collect (xs.map (Noted.map f)) = (Noted.collect xs).map (List.map f) := by
  induction xs with
  | nil => rfl
  | cons a xs ih =>
    rw [List.map_cons, collect, collect, ih]
    rfl

namespace Scope

variable {x y : Scope} {f : String → String}

/-- A value type of a hint is looked up like any other definition. -/
theorem keywordShape_eq (scope : Scope) {keyword : String} (h : Primitive.ofKeyword? keyword = none) :
    scope.keywordShape keyword = .ofClass (scope.hints.classNameFor keyword) := by
  unfold keywordShape className?
  rw [h]
  dsimp only
  cases scope.definitions.get? keyword with
  | none => rfl
  | some target => cases hc : target.isClass <;> simp [hc]

theorem propertyShape_mapNames (hd : y.definitions = x.definitions) {site : Site} {s : Schema}
    (hdict : y.hints.dictionary? site.schemaId site.property =
      x.hints.dictionary? site.schemaId site.property)
    (hname : ∀ definition, x.Names site s definition →
      y.hints.classNameFor definition = f (x.hints.classNameFor definition)) :
    y.propertyShape site s = (x.propertyShape site s).map (Shape.mapNames f) := by
  have hclassify (start : Schema) (hstart : x.start? site s = some start) :
      y.classify site [] start = (x.classify site [] start).map (Shape.mapNames f) :=
    classify_mapNames hd fun definition hto => hname definition (.reference hstart hto)
  unfold start? at hclassify
  unfold propertyShape
  rw [hdict]
  cases hhint : x.hints.dictionary? site.schemaId site.property with
  | none => exact hclassify s (by rw [hhint])
  | some keyword? =>
    cases keyword? with
    | some keyword =>
      dsimp only
      cases hk : Primitive.ofKeyword? keyword with
      | some p => simp only [keywordShape, hk, Noted.map, Shape.mapNames]
      | none =>
        rw [keywordShape_eq x hk, keywordShape_eq y hk, hname keyword (.valueType hhint hk)]
        rfl
    | none =>
      dsimp only
      rw [hhint] at hclassify
      cases ha : s.additionalProperties with
      | none => rfl
      | some additional =>
        cases additional with
        | flag allowed => rfl
        | schema value =>
          exact congrArg (Noted.map Shape.map) (hclassify value (by rw [ha]))

theorem property_mapNames (hd : y.definitions = x.definitions) {schemaId jsonName : String}
    {owner s : Schema} (hsame : x.hints.SameProperty y.hints schemaId jsonName)
    (hname : ∀ definition, x.Names ⟨schemaId, jsonName⟩ s definition →
      y.hints.classNameFor definition = f (x.hints.classNameFor definition)) :
    y.property schemaId owner jsonName s =
      (x.property schemaId owner jsonName s).map (Property.mapNames f) := by
  have hshape : y.propertyShape ⟨schemaId, jsonName⟩ s =
      (x.propertyShape ⟨schemaId, jsonName⟩ s).map (Shape.mapNames f) :=
    propertyShape_mapNames hd hsame.dictionary hname
  simp only [property, hshape, hsame.propertyName, hsame.comparer, hsame.modifiers, Noted.map,
    Property.mapNames, Shape.kind_mapNames, Shape.arrayDepth_mapNames, Shape.containsClass_mapNames]
  cases x.hints.comparer? schemaId jsonName with
  | some comparer => rfl
  | none => rw [Shape.comparison_mapNames]

theorem noted_eq (scope : Scope) (source : ClassSource) :
    scope.noted source = (Noted.collect (source.schema.properties.map fun p =>
        scope.property source.schemaId source.schema p.1 p.2)).map fun properties => {
      schemaId := source.schemaId
      name := scope.nameOf source
      description := source.schema.description
      baseTypes := scope.hints.baseTypes source.schemaId
      properties } := rfl

/-- **Every name of a class in a property is that of a definition that the property names.** -/
theorem mem_classNames_property {scope : Scope} {schemaId jsonName : String} {owner s : Schema}
    {name : String}
    (h : name ∈ (scope.property schemaId owner jsonName s).value.shape.classNames) :
    ∃ definition, scope.Names ⟨schemaId, jsonName⟩ s definition ∧
      name = scope.hints.classNameFor definition := by
  by_contra hnone
  -- changing this one name changes the shape, though it changes no name that is looked up
  let f (n : String) : String := if n = name then name.push '_' else n
  have hsame : (scope.propertyShape ⟨schemaId, jsonName⟩ s).value.mapNames f =
      (scope.propertyShape ⟨schemaId, jsonName⟩ s).value := by
    refine congrArg Noted.value (propertyShape_mapNames rfl rfl fun definition hnames => ?_).symm
    exact (if_neg fun heq => hnone ⟨definition, hnames, heq.symm⟩).symm
  have hfixed : f name = name := Shape.mapNames_eq_self_iff.1 hsame name h
  rw [show f name = name.push '_' from if_pos rfl] at hfixed
  simpa using congrArg String.length hfixed

theorem comparison_property_subset (scope : Scope) (schemaId jsonName : String) (owner s : Schema) :
    (scope.property schemaId owner jsonName s).value.comparison.classNames ⊆
      (scope.property schemaId owner jsonName s).value.shape.classNames := by
  unfold property
  dsimp only [Noted.map]
  cases scope.hints.comparer? schemaId jsonName with
  | some comparer => exact List.nil_subset _
  | none =>
    rw [Shape.classNames_comparison]
    exact List.Subset.refl _

/-! ## Models in which every name is that of a class -/

/-- Whether everything that is named exists: each reference that is met leads to a definition, and a
hint for a dictionary names a primitive or a class. -/
structure Resolves (scope : Scope) (sources : List ClassSource) : Prop where
  references : ∀ source ∈ sources, ∀ p ∈ source.schema.properties, ∀ start fragment definition,
    scope.start? ⟨source.schemaId, p.1⟩ p.2 = some start → scope.ExpandsTo start fragment →
    definitionName? fragment = some definition →
    ∃ target, scope.definitions.get? definition = some target
  valueTypes : ∀ schemaId property keyword,
    scope.hints.dictionary? schemaId property = some (some keyword) →
    (Primitive.ofKeyword? keyword).isSome = true ∨
      ∃ target, scope.definitions.get? keyword = some target ∧ target.isClass = true

/-- What a property names is then a class. -/
theorem Resolves.isClass {scope : Scope} {sources : List ClassSource} (h : scope.Resolves sources)
    {source : ClassSource} (hsource : source ∈ sources) {p : String × Schema}
    (hp : p ∈ source.schema.properties) {definition : String}
    (hnames : scope.Names ⟨source.schemaId, p.1⟩ p.2 definition) :
    ∃ target, scope.definitions.get? definition = some target ∧ target.isClass = true := by
  cases hnames with
  | reference hstart hto =>
    obtain ⟨y, fragment, hwalk, hr, hn, hclass⟩ := hto
    obtain ⟨target, hget⟩ :=
      h.references source hsource p hp _ fragment definition hstart ⟨y, hwalk, hr⟩ hn
    exact ⟨target, hget, hclass target hget⟩
  | valueType hhint hkeyword =>
    refine (h.valueTypes _ _ definition hhint).resolve_left fun hsome => ?_
    rw [hkeyword] at hsome
    cases hsome

end Scope

theorem Schema.mem_classSources_of_get? {s target : Schema} {definition : String}
    (h : Fields.get? s.definitions definition = some target) (hc : target.isClass = true)
    (rootClass : String) : ⟨definition, target⟩ ∈ s.classSources rootClass := by
  refine List.mem_append_right _ (List.mem_map.2 ⟨(definition, target), ?_, rfl⟩)
  exact List.mem_filter.2 ⟨Fields.mem_of_get? h, hc⟩

namespace Registry

/-- Whether every class that a property names is there. -/
def Closed (r : Registry) : Prop :=
  ∀ c ∈ r.classes, ∀ p ∈ c.properties,
    (∀ name ∈ p.shape.classNames, name ∈ r.entries.keys) ∧
      ∀ name ∈ p.comparison.classNames, name ∈ r.entries.keys

variable {s : Schema} {hints : HintTable} {rootClass : String} {r : Registry}

/-- A model has one class for each source, and no two of them have the same name. -/
theorem perm_classes_of_build (hr : build s hints rootClass = .ok r) :
    ((s.classSources rootClass).map (s.scope hints).nameOf).Nodup ∧
      r.classes.Perm ((s.classSources rootClass).map (s.scope hints).classOf) := by
  obtain ⟨hclean, rfl⟩ := build_eq_ok_iff.1 hr
  have hnames := (Scope.faults_drafted_eq_nil_iff.1 hclean).1
  exact ⟨hnames, Scope.perm_classes_drafted hnames⟩

theorem mem_keys_of_build (hr : build s hints rootClass = .ok r) {source : ClassSource}
    (hsource : source ∈ s.classSources rootClass) :
    (s.scope hints).nameOf source ∈ r.entries.keys := by
  have hmem := (perm_classes_of_build hr).2.mem_iff.2 (List.mem_map_of_mem hsource)
  obtain ⟨e, he, hclass⟩ := List.mem_map.1 hmem
  refine List.mem_map.2 ⟨e, he, ?_⟩
  rw [← keyed_of_build hr e he, hclass]
  rfl

/-- The names of a model increase. -/
theorem pairwise_keys_of_build (hr : build s hints rootClass = .ok r) :
    r.entries.keys.Pairwise (· < ·) := by
  obtain ⟨-, rfl⟩ := build_eq_ok_iff.1 hr
  exact Scope.pairwise_keys_drafted _ _

theorem nodup_keys_of_build (hr : build s hints rootClass = .ok r) : r.entries.keys.Nodup :=
  (pairwise_keys_of_build hr).imp fun h => String.ne_of_lt h

/-- The classes of a model are found by their names. -/
theorem get?_of_build (hr : build s hints rootClass = .ok r) {c : ClassModel} (hc : c ∈ r.classes) :
    r.get? c.name = some c := by
  obtain ⟨e, he, rfl⟩ := List.mem_map.1 hc
  rw [keyed_of_build hr e he]
  exact Fields.get?_of_mem (nodup_keys_of_build hr) he

/-- Going by the stored names leads to all classes. -/
theorem listed_of_build (hr : build s hints rootClass = .ok r) : r.listed = r.classes := by
  have hget (e) (he : e ∈ r.entries) : r.get? e.1 = some e.2 :=
    Fields.get?_of_mem (nodup_keys_of_build hr) he
  rw [listed, names_of_build hr, Fields.keys, List.filterMap_map, classes, ← List.filterMap_eq_map']
  exact List.filterMap_congr hget

/-- **A model is closed if everything that is named exists.** -/
theorem closed_of_build (hr : build s hints rootClass = .ok r)
    (hres : (s.scope hints).Resolves (s.classSources rootClass)) : r.Closed := by
  intro c hc p hp
  obtain ⟨source, hsource, rfl⟩ :=
    List.mem_map.1 ((perm_classes_of_build hr).2.mem_iff.1 hc)
  rw [Scope.classOf, Scope.noted, Scope.properties_classModel] at hp
  obtain ⟨field, hfield, rfl⟩ := List.mem_map.1 hp
  have hshape : ∀ name ∈ ((s.scope hints).property source.schemaId source.schema field.1
      field.2).value.shape.classNames, name ∈ r.entries.keys := by
    intro name hname
    obtain ⟨definition, hnames, rfl⟩ := Scope.mem_classNames_property hname
    obtain ⟨target, hget, hclass⟩ := hres.isClass hsource hfield hnames
    exact mem_keys_of_build hr (Schema.mem_classSources_of_get? hget hclass rootClass)
  exact ⟨hshape, fun name hname => hshape name (Scope.comparison_property_subset _ _ _ _ _ hname)⟩

theorem closed_trees : trees.Closed := by
  unfold Closed
  decide

end Registry

/-! ## A schema in which a class is named in all ways -/

/-- Trees that hold trees: below them, through a definition that is a list, and among their marks,
through a hint. -/
def forestSchema : Schema := {
  definitions := [
    ("tree", { properties := [
      ("below", { reference := some "#/definitions/trees" }),
      ("marks", { type := some (.one .object) })] }),
    ("trees", {
      type := some (.one .array), items := some { reference := some "#/definitions/tree" } })] }

def forestHints : HintTable := ⟨[("tree.marks", [.dictionary (some "tree")])]⟩

def forestScope : Scope := forestSchema.scope forestHints

/-- The model of `forestSchema`. -/
def Registry.forest : Registry := .ofClasses [{
  schemaId := "tree", name := "Tree", description := none, baseTypes := []
  properties := [
    Registry.trees.property "below" "Below" (.array (.ofClass "Tree")),
    Registry.trees.property "marks" "Marks" (.map (.ofClass "Tree"))] }]

theorem classModel_forest :
    forestScope.classModel ⟨"tree", forestSchema.definitions.head!.2⟩ "Tree" =
      { value := Registry.forest.classes.head! } := by
  have hitems (site : Site) : forestScope.classify site ["trees"]
      { reference := some "#/definitions/tree" } = { value := .ofClass "Tree" } := by
    rw [Scope.classify_eq_onward]
    rfl
  have htrees (site : Site) : forestScope.classify site ["trees"] {
      type := some (.one .array), items := some { reference := some "#/definitions/tree" } } =
      { value := .array (.ofClass "Tree") } :=
    (Scope.classify_eq_onward _ _).trans (congrArg (Noted.map Shape.array) (hitems site))
  have hbelow : forestScope.propertyShape ⟨"tree", "below"⟩
      { reference := some "#/definitions/trees" } = { value := .array (.ofClass "Tree") } :=
    (Scope.classify_eq_onward _ _).trans (congrArg (Noted.map id) (htrees _))
  have hmarks (s : Schema) : forestScope.propertyShape ⟨"tree", "marks"⟩ s =
      { value := .map (.ofClass "Tree") } := rfl
  simp only [Scope.classModel, forestSchema, List.head!, List.map, Scope.property, hbelow, hmarks]
  rfl

theorem build_forestSchema :
    Registry.build forestSchema forestHints "Root" = .ok Registry.forest := by
  have hnoted : (forestSchema.classSources "Root").map forestScope.noted = [_] :=
    congrArg (fun n => [n]) classModel_forest
  exact Registry.build_of_noted hnoted (by decide) (by simp)

theorem forest_resolves : forestScope.Resolves (forestSchema.classSources "Root") := by
  constructor
  case references =>
    intro source hsource p hp start fragment definition hstart hto hn
    cases List.mem_singleton.1 hsource
    rcases List.mem_cons.1 hp with rfl | hp
    · cases hstart
      obtain ⟨y, hwalk, hr⟩ := hto
      -- the chain goes from the reference to the list and on to its items
      have hbelow : forestScope.onward ⟨"tree", "below"⟩ []
          { reference := some "#/definitions/trees" } = .goOn id ["trees"] _ := rfl
      have htrees : forestScope.onward ⟨"tree", "below"⟩ ["trees"] {
          type := some (.one .array), items := some { reference := some "#/definitions/tree" } } =
          .goOn .array ["trees"] _ := rfl
      have hitems : forestScope.onward ⟨"tree", "below"⟩ ["trees"]
          { reference := some "#/definitions/tree" } = .done _ := rfl
      rw [Scope.walk_iff_of_goOn hbelow, Scope.walk_iff_of_goOn htrees,
        Scope.walk_iff_of_done hitems] at hwalk
      rcases hwalk with rfl | rfl | rfl
      · cases hr
        cases (by decide : definitionName? "#/definitions/trees" = some "trees").symm.trans hn
        exact ⟨_, rfl⟩
      · cases hr
      · cases hr
        cases (by decide : definitionName? "#/definitions/tree" = some "tree").symm.trans hn
        exact ⟨_, rfl⟩
    · cases List.mem_singleton.1 hp
      cases hstart
  case valueTypes =>
    intro schemaId property keyword hhint
    have hget (id : String) : forestHints.get id =
        if id = "tree.marks" then [.dictionary (some "tree")] else [] := by
      rw [HintTable.get, forestHints, Fields.get?_cons]
      split <;> rfl
    rw [forestScope, Schema.scope, HintTable.dictionary?, HintTable.forProperty, hget] at hhint
    split at hhint
    · cases hhint
      exact Or.inr ⟨_, rfl, rfl⟩
    · cases hhint

end Classwright
