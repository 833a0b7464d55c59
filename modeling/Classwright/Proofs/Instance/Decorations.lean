import Classwright.Proofs.Instance.Closed
import Classwright.Proofs.Model.Locality

/-!
# What hints cannot change

Hints that name properties, add base types, replace modifiers or name comparers change the generated
code. What the members do with instances does not depend on them: a model is evaluated like its
*undecorated* form, and tables that agree on the names of classes and on dictionaries give models with
one undecorated form.

* **`Registry.undecorated`** — a model without what such hints say.
* **`find_bind_undecorated`** — a member looks up a class and goes on with it. Where it goes on alike with
  the undecorated class, it does not see decorations. One lemma for each of the five walks says so of
  its step, and a walk is determined by its step.
* **`build_undecorated`** — two tables, one undecorated model, or the same faults.
-/

namespace Classwright

/-! ## Models without decorations -/

/-- A property without its name in the code, its modifiers and its comparer. -/
def Property.undecorated (p : Property) : Property :=
  { p with name := "", comparison := p.evaluated, modifiers := [] }

/-- A class without its base types and the decorations of its properties. -/
def ClassModel.undecorated (c : ClassModel) : ClassModel :=
  { c with baseTypes := [], properties := c.properties.map Property.undecorated }

/-- A model without decorations. -/
def Registry.undecorated (r : Registry) : Registry :=
  { r with entries := r.entries.mapValues ClassModel.undecorated }

/-- What a property is evaluated by is no comparer, so it is evaluated by that. -/
@[simp] theorem Property.evaluated_undecorated (p : Property) : p.undecorated.evaluated = p.evaluated := by
  obtain ⟨jsonName, name, shape, kind, depth, visitable, comparison, required, text, modifiers⟩ := p
  cases comparison with
  | custom comparer => cases shape <;> rfl
  | _ => rfl

theorem ClassModel.visitable_undecorated (c : ClassModel) :
    c.undecorated.visitable = c.visitable.map Property.undecorated := by
  rw [visitable, visitable, undecorated, List.filter_map]
  rfl

namespace Registry

variable (r : Registry)

theorem find_undecorated (name : String) :
    r.undecorated.find name = (r.find name).map ClassModel.undecorated := by
  have hget : r.undecorated.get? name = (r.get? name).map ClassModel.undecorated :=
    Fields.get?_mapValues ClassModel.undecorated r.entries name
  rw [find, find, hget]
  cases r.get? name <;> rfl

/-- What is done with a class after looking it up, if it is done alike without decorations. -/
theorem find_bind_undecorated {α : Type} (next : ClassModel → Except InstanceFault α)
    (h : ∀ c, next c.undecorated = next c) (name : String) :
    (r.undecorated.find name >>= next) = (r.find name >>= next) := by
  rw [find_undecorated]
  cases r.find name with
  | error e => rfl
  | ok c => exact h c

/-! ## The members -/

theorem equalProperties_undecorated (c : ClassModel) (fields : Fields EqualityTest) (b : Json) :
    equalProperties c.undecorated fields b = equalProperties c fields b := by
  unfold equalProperties
  rw [ClassModel.undecorated, allM_map]
  simp only [Property.evaluated_undecorated]
  rfl

theorem equalStep_undecorated : r.undecorated.equalStep = r.equalStep := by
  funext a items fields comparison shape b
  -- the registry is asked for a class and for nothing else
  have hnext (name b) := r.find_bind_undecorated (fun c => equalProperties c fields b)
    (fun c => equalProperties_undecorated c fields b) name
  simp only [equalStep, hnext]

theorem equals_undecorated : r.undecorated.equals = r.equals := by
  funext name a b
  unfold equals equalValues
  rw [equalStep_undecorated]
  exact r.find_bind_undecorated _ (fun _ => rfl) name

theorem hashProperties_undecorated (c : ClassModel) (fields : String → HashFold) :
    hashProperties c.undecorated fields = hashProperties c fields := by
  unfold hashProperties
  rw [ClassModel.undecorated, List.foldlM_map]
  simp only [Property.evaluated_undecorated]
  rfl

theorem hashStep_undecorated (leaf : LeafHash) : r.undecorated.hashStep leaf = r.hashStep leaf := by
  funext v items fields comparison shape acc
  have hnext (name) := r.find_bind_undecorated
    (fun c => do
      let hash ← hashProperties c fun key => (Fields.get? fields key).getD hashNull
      .ok (foldHash acc hash))
    (fun c => by rw [hashProperties_undecorated]) name
  simp only [hashStep, hnext]

theorem hash_undecorated (leaf : LeafHash) : r.undecorated.hash leaf = r.hash leaf := by
  funext name v
  unfold hash hashInto
  rw [hashStep_undecorated]
  exact r.find_bind_undecorated _ (fun c => hashProperties_undecorated c _) name

theorem orderStep_undecorated : r.undecorated.orderStep = r.orderStep := by
  funext a items fields comparison shape b
  have hnext (name) (b : Json) := r.find_bind_undecorated
    (fun c => firstUnequal (fun p => (Fields.get? fields p.jsonName).getD orderNull p.evaluated p.shape
      (b.part p.jsonName)) c.properties)
    (fun c => by
      rw [ClassModel.undecorated, firstUnequal_map]
      simp only [Property.evaluated_undecorated]
      rfl) name
  simp only [orderStep, hnext]

theorem order_undecorated : r.undecorated.order = r.order := by
  funext name a b
  unfold order orderValues
  rw [orderStep_undecorated]
  exact r.find_bind_undecorated _ (fun _ => rfl) name

theorem copyProperties_undecorated (c : ClassModel) (fields : Fields Copier) :
    copyProperties c.undecorated fields = copyProperties c fields := by
  unfold copyProperties
  rw [ClassModel.undecorated, List.foldlM_map]
  rfl

theorem copyStep_undecorated : r.undecorated.copyStep = r.copyStep := by
  funext v items fields shape
  have hnext (name) := r.find_bind_undecorated (fun c => copyProperties c fields)
    (fun c => copyProperties_undecorated c fields) name
  simp only [copyStep, hnext]

theorem deepClone_undecorated : r.undecorated.deepClone = r.deepClone := by
  funext name v
  unfold deepClone copyValue
  rw [copyStep_undecorated]

theorem visitProperties_undecorated (c : ClassModel) (given : Fields Json) (fields : Fields Visit) :
    visitProperties c.undecorated given fields = visitProperties c given fields := by
  unfold visitProperties
  rw [ClassModel.visitable_undecorated, List.foldlM_map]
  rfl

theorem visitStep_undecorated (f : String → Json → Json) :
    r.undecorated.visitStep f = r.visitStep f := by
  funext v items fields shape
  -- what is done with a class depends on the value, so the cases come first
  cases shape with
  | ofClass name =>
    cases v with
    | null => rfl
    | object given =>
      refine r.find_bind_undecorated _ (fun c => ?_) name
      dsimp only
      rw [visitProperties_undecorated]
      rfl
    | _ => exact r.find_bind_undecorated _ (fun _ => rfl) name
  | _ => cases v <;> rfl

theorem visit_undecorated (f : String → Json → Json) : r.undecorated.visit f = r.visit f := by
  funext name v
  unfold visit visitValue
  rw [visitStep_undecorated]

end Registry

/-! ## Tables that differ in decorations -/

/-- Whether two tables agree on the names of classes and on dictionaries. -/
structure HintTable.SameClasses (x y : HintTable) : Prop where
  className : ∀ schemaId, y.className? schemaId = x.className? schemaId
  dictionary : ∀ definition property, y.dictionary? definition property = x.dictionary? definition property

namespace Scope

/-- Without decorations a property is what its schema and its shape say. -/
theorem map_undecorated_property (scope : Scope) (schemaId jsonName : String) (owner s : Schema) :
    (scope.property schemaId owner jsonName s).map Property.undecorated =
      (scope.propertyShape ⟨schemaId, jsonName⟩ s).map fun shape => {
        jsonName
        name := ""
        shape
        kind := shape.kind
        arrayDepth := shape.arrayDepth
        isVisitable := shape.containsClass
        comparison := shape.comparison
        required := owner.isRequired jsonName
        description := s.description
        modifiers := [] } := by
  have hevaluated := scope.evaluated_property schemaId jsonName owner s
  simp only [Noted.map, Property.undecorated, hevaluated]
  rfl

/-- Without decorations a class is its name and its properties without decorations. -/
theorem map_undecorated_noted (scope : Scope) (source : ClassSource) :
    (scope.noted source).map ClassModel.undecorated =
      (Noted.collect (source.schema.properties.map fun p =>
        (scope.property source.schemaId source.schema p.1 p.2).map Property.undecorated)).map
        fun properties => {
          schemaId := source.schemaId
          name := scope.nameOf source
          description := source.schema.description
          baseTypes := []
          properties } := by
  have hproperties : (source.schema.properties.map fun p =>
        (scope.property source.schemaId source.schema p.1 p.2).map Property.undecorated) =
      (source.schema.properties.map fun p =>
        scope.property source.schemaId source.schema p.1 p.2).map (Noted.map Property.undecorated) := by
    rw [List.map_map]
    rfl
  rw [hproperties, Noted.collect_map, noted_eq]
  rfl

variable {x y : Scope}

theorem propertyShape_of_sameClasses (hd : y.definitions = x.definitions)
    (h : x.hints.SameClasses y.hints) (site : Site) (s : Schema) :
    y.propertyShape site s = x.propertyShape site s := by
  -- tables that agree differ by the renaming that changes no name
  have hname (definition : String) :
      y.hints.classNameFor definition = id (x.hints.classNameFor definition) := by
    rw [id, HintTable.classNameFor, HintTable.classNameFor, h.className]
  have hshape := propertyShape_mapNames hd (h.dictionary site.schemaId site.property)
    fun definition (_ : x.Names site s definition) => hname definition
  rwa [Noted.map, Shape.mapNames_id] at hshape

theorem nameOf_of_sameClasses (h : x.hints.SameClasses y.hints) (source : ClassSource) :
    y.nameOf source = x.nameOf source := by
  rw [nameOf, nameOf, HintTable.classNameFor, HintTable.classNameFor, h.className]

theorem noted_of_sameClasses (hd : y.definitions = x.definitions) (h : x.hints.SameClasses y.hints)
    (source : ClassSource) :
    (y.noted source).map ClassModel.undecorated = (x.noted source).map ClassModel.undecorated := by
  simp only [map_undecorated_noted, map_undecorated_property, propertyShape_of_sameClasses hd h,
    nameOf_of_sameClasses h]

/-- The faults of sources are the same in both scopes, and so is their undecorated model. -/
theorem drafted_of_sameClasses (hd : y.definitions = x.definitions)
    (h : x.hints.SameClasses y.hints) (sources : List ClassSource) :
    (y.drafted sources).faults = (x.drafted sources).faults ∧
      (y.drafted sources).registry.undecorated = (x.drafted sources).registry.undecorated := by
  have hfaults (source : ClassSource) := congrArg Noted.faults (noted_of_sameClasses hd h source)
  have hclass (source : ClassSource) : (y.classOf source).undecorated = (x.classOf source).undecorated :=
    congrArg Noted.value (noted_of_sameClasses hd h source)
  have hname (c d : ClassModel) (hcd : c.undecorated = d.undecorated) : c.name = d.name := by
    have hundecorated := congrArg ClassModel.name hcd
    exact hundecorated
  constructor
  · exact faults_drafted_congr (fun source _ => nameOf_of_sameClasses h source)
      fun source _ => hfaults source
  · -- classes are kept in the order of their names, which decorations leave alone
    have hclasses := forall₂_classes_drafted hname fun source (_ : source ∈ sources) => hclass source
    have hentries : (y.drafted sources).classes.mapValues ClassModel.undecorated =
        (x.drafted sources).classes.mapValues ClassModel.undecorated := by
      refine List.forall₂_eq_eq_eq ▸ ?_
      refine List.forall₂_map_left_iff.2 (List.forall₂_map_right_iff.2 (hclasses.imp ?_))
      exact fun _ _ h => Prod.ext h.1 h.2
    have hkeys := congrArg Fields.keys hentries
    rw [Fields.keys_mapValues, Fields.keys_mapValues] at hkeys
    exact congrArg₂ Registry.mk hentries hkeys

end Scope

namespace Registry

variable {s : Schema} {hints hints' : HintTable}

/-- **Decorations are all that such tables differ in.** -/
theorem build_undecorated (h : hints.SameClasses hints') (rootClass : String) :
    (build s hints' rootClass).map undecorated = (build s hints rootClass).map undecorated := by
  obtain ⟨hfaults, hregistry⟩ := Scope.drafted_of_sameClasses (x := s.scope hints)
    (y := s.scope hints') rfl h (s.classSources rootClass)
  rw [build_eq, build_eq, hfaults]
  split
  · exact congrArg Except.ok hregistry
  · rfl

/-- Whether the members of all classes give the same results, or the same faults, in two models. -/
structure EvaluatesAs (r r' : Registry) : Prop where
  equals : ∀ name a b, r'.equals name a b = r.equals name a b
  hash : ∀ leaf name v, r'.hash leaf name v = r.hash leaf name v
  order : ∀ name a b, r'.order name a b = r.order name a b
  visit : ∀ f name v, r'.visit f name v = r.visit f name v
  deepClone : ∀ name v, r'.deepClone name v = r.deepClone name v

/-- A model is evaluated like its undecorated form, so models that have one are evaluated alike. -/
theorem EvaluatesAs.of_undecorated {r r' : Registry} (h : r'.undecorated = r.undecorated) :
    r.EvaluatesAs r' where
  equals := by rw [← r.equals_undecorated, ← r'.equals_undecorated, h]; exact fun _ _ _ => rfl
  hash leaf := by
    rw [← r.hash_undecorated, ← r'.hash_undecorated, h]
    exact fun _ _ => rfl
  order := by rw [← r.order_undecorated, ← r'.order_undecorated, h]; exact fun _ _ _ => rfl
  visit f := by
    rw [← r.visit_undecorated, ← r'.visit_undecorated, h]
    exact fun _ _ => rfl
  deepClone := by
    rw [← r.deepClone_undecorated, ← r'.deepClone_undecorated, h]
    exact fun _ _ => rfl

/-- **Only names of classes and dictionaries change what instances are.** Of two tables that agree on the
first name for each class and on the first dictionary for each property, one gives a model if the
other one does, and the same faults otherwise. In the two models equality, hash, order, visits and copies
are the same for every class name and all values. -/
theorem build_evaluates_alike
    (hclass : ∀ schemaId, hints'.className? schemaId = hints.className? schemaId)
    (hdictionary : ∀ definition property,
      hints'.dictionary? definition property = hints.dictionary? definition property)
    (rootClass : String) :
    ((∃ r', build s hints' rootClass = .ok r') ↔ ∃ r, build s hints rootClass = .ok r) ∧
      (∀ faults, build s hints' rootClass = .error faults ↔ build s hints rootClass = .error faults) ∧
      ∀ r r', build s hints rootClass = .ok r → build s hints' rootClass = .ok r' →
        r.EvaluatesAs r' := by
  have hbuild := build_undecorated (s := s) ⟨hclass, hdictionary⟩ rootClass
  cases hr : build s hints rootClass with
  | error faults =>
    cases hr' : build s hints' rootClass with
    | error faults' =>
      rw [hr, hr'] at hbuild
      cases hbuild
      simp
    | ok r' =>
      -- faults on one side only would show in the undecorated models
      rw [hr, hr'] at hbuild
      cases hbuild
  | ok r =>
    cases hr' : build s hints' rootClass with
    | error faults' =>
      rw [hr, hr'] at hbuild
      cases hbuild
    | ok r' =>
      rw [hr, hr'] at hbuild
      refine ⟨by simp, by simp, ?_⟩
      rintro _ _ ⟨⟩ ⟨⟩
      exact EvaluatesAs.of_undecorated (Except.ok.inj hbuild)

/-- Hints that decorate the model of `treeSchema`. -/
def treeDecorations : HintTable := ⟨[
  ("Tree", [.baseTypes ["Plant"]]),
  ("Tree.height", [.comparer "HeightComparer", .propertyName "Size", .modifiers ["internal"]])]⟩

theorem build_evaluates_alike_trees :
    ∃ r', build treeSchema treeDecorations "Root" = .ok r' ∧
      (∃ c ∈ r'.classes, ∃ p ∈ c.properties, p.comparison = .custom "HeightComparer") ∧
      r'.equals "Tree" aTree sameTree = .ok true := by
  have hget (schemaId : String) : treeDecorations.get schemaId =
      if schemaId = "Tree" then [.baseTypes ["Plant"]]
      else if schemaId = "Tree.height" then
        [.comparer "HeightComparer", .propertyName "Size", .modifiers ["internal"]]
      else [] := by
    rw [HintTable.get, treeDecorations, Fields.get?_cons, Fields.get?_cons]
    split
    · rfl
    · split <;> rfl
  have hclass (schemaId : String) :
      treeDecorations.className? schemaId = ({} : HintTable).className? schemaId := by
    rw [HintTable.className?, hget]
    split
    · rfl
    · split <;> rfl
  have hdictionary (definition property : String) : treeDecorations.dictionary? definition property =
      ({} : HintTable).dictionary? definition property := by
    rw [HintTable.dictionary?, HintTable.forProperty, hget]
    split
    · rfl
    · split <;> rfl
  obtain ⟨hiff, -, halike⟩ := build_evaluates_alike (s := treeSchema) hclass hdictionary "Root"
  obtain ⟨r', hr'⟩ := hiff.2 ⟨trees, build_treeSchema⟩
  refine ⟨r', hr', ?_, ?_⟩
  · have hmem : treeSource ∈ treeSchema.classSources "Root" := List.mem_singleton_self _
    refine ⟨_, (perm_classes_of_build hr').2.mem_iff.2 (List.mem_map_of_mem hmem), ?_⟩
    rw [Scope.classOf, Scope.noted, Scope.properties_classModel]
    exact ⟨_, List.mem_cons_self, rfl⟩
  · rw [(halike trees r' build_treeSchema hr').equals]
    decide

end Registry

end Classwright
