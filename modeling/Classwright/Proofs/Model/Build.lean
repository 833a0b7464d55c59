import Mathlib.Data.List.Induction
import Mathlib.Data.List.Nodup
import Classwright.Model.Build
import Classwright.Proofs.Instance.Equality

/-!
# Built registries

What is known about the classes of a registry that was built from a schema. Every class of it comes
from a source through `Scope.classModel`, so a law about all classes is a law about that function
(`ModelDraft.forall_ofSchema`).
-/

namespace Classwright

/-! ### Looking classes up -/

namespace Registry

variable {r : Registry} {name : String} {c : ClassModel}

/-- Whether every class stands under its own name. -/
def Keyed (r : Registry) : Prop := ∀ e ∈ r.entries, e.2.name = e.1

theorem mem_of_get? (h : r.get? name = some c) : c ∈ r.classes :=
  List.mem_map.2 ⟨_, Fields.mem_of_get? h, rfl⟩

theorem Keyed.name_of_get? (hr : r.Keyed) (h : r.get? name = some c) : c.name = name :=
  hr _ (Fields.mem_of_get? h)

theorem find_of_get? (h : r.get? name = some c) : r.find name = .ok c := by
  rw [find, h]

theorem mem_of_find (h : r.find name = .ok c) : c ∈ r.classes := by
  unfold find at h
  split at h
  · next hget =>
    cases h
    exact mem_of_get? hget
  · cases h

end Registry

/-! ### Classes in the order of their names -/

theorem mem_insertClass {name : String} {c : ClassModel} {entries : Fields ClassModel}
    {e : String × ClassModel} (h : e ∈ insertClass name c entries) : e = (name, c) ∨ e ∈ entries := by
  induction entries with
  | nil => exact Or.inl (List.mem_singleton.1 h)
  | cons d entries ih =>
    rw [insertClass] at h
    split at h
    · exact List.mem_cons.1 h
    · split at h
      · rcases List.mem_cons.1 h with rfl | h
        · exact Or.inr List.mem_cons_self
        · exact (ih h).imp_right (List.mem_cons_of_mem _)
      · exact (List.mem_cons.1 h).imp_right (List.mem_cons_of_mem _)

/-- A class under a new name comes to the others. -/
theorem perm_insertClass {name : String} (c : ClassModel) {entries : Fields ClassModel}
    (h : name ∉ entries.keys) : (insertClass name c entries).Perm ((name, c) :: entries) := by
  induction entries with
  | nil => exact .refl _
  | cons d entries ih =>
    rw [Fields.keys_cons, List.mem_cons, not_or] at h
    rw [insertClass]
    split
    · exact .refl _
    · next hlt =>
      have hlt' : d.1 < name := by
        by_contra hge
        exact h.1 (String.le_antisymm (String.not_lt.1 hge) (String.not_lt.1 hlt))
      rw [if_pos hlt']
      exact ((ih h.2).cons d).trans (.swap (name, c) d entries)

/-- The names stay in order, and none comes twice. -/
theorem pairwise_keys_insertClass (name : String) (c : ClassModel) {entries : Fields ClassModel}
    (h : entries.keys.Pairwise (· < ·)) : (insertClass name c entries).keys.Pairwise (· < ·) := by
  induction entries with
  | nil => exact List.pairwise_singleton _ _
  | cons d entries ih =>
    rw [Fields.keys_cons, List.pairwise_cons] at h
    rw [insertClass]
    split
    · next hlt =>
      refine List.pairwise_cons.2 ⟨fun key hkey => ?_, List.pairwise_cons.2 h⟩
      rcases List.mem_cons.1 hkey with rfl | hkey
      · exact hlt
      · exact String.lt_trans hlt (h.1 key hkey)
    · next hle =>
      split
      · next hlt =>
        refine List.pairwise_cons.2 ⟨fun key hkey => ?_, ih h.2⟩
        obtain ⟨e, he, rfl⟩ := List.mem_map.1 hkey
        rcases mem_insertClass he with rfl | he
        · exact hlt
        · exact h.1 e.1 (List.mem_map_of_mem he)
      · next hge =>
        have heq : name = d.1 := String.le_antisymm (String.not_lt.1 hge) (String.not_lt.1 hle)
        exact List.pairwise_cons.2 ⟨fun key hkey => heq ▸ h.1 key hkey, h.2⟩

/-- A class whose name is behind those of all others comes last. -/
theorem insertClass_of_last {name : String} (c : ClassModel) {entries : Fields ClassModel}
    (h : ∀ key ∈ entries.keys, key < name) : insertClass name c entries = entries ++ [(name, c)] := by
  induction entries with
  | nil => rfl
  | cons e entries ih =>
    rw [Fields.keys_cons, List.forall_mem_cons] at h
    rw [insertClass, if_neg (String.lt_asymm h.1), if_pos h.1, ih h.2, List.cons_append]

/-- Classes that come in the order of their names stay in this order. -/
theorem foldl_insertClass_of_sorted {classes : List ClassModel}
    (h : (classes.map ClassModel.name).Pairwise (· < ·)) :
    classes.foldl (fun entries c => insertClass c.name c entries) [] =
      classes.map fun c => (c.name, c) := by
  induction classes using List.reverseRecOn with
  | nil => rfl
  | append_singleton classes c ih =>
    rw [List.map_append, List.pairwise_append] at h
    rw [List.foldl_concat, ih h.1, List.map_append]
    refine insertClass_of_last c fun key hkey => h.2.2 key ?_ c.name List.mem_cons_self
    rwa [Fields.keys, List.map_map] at hkey

/-! ### Where classes come from -/

namespace ModelDraft

theorem add_of_taken {scope : Scope} {draft : ModelDraft} {source : ClassSource} {first : String}
    (h : draft.taken.get? (scope.hints.classNameFor source.schemaId) = some first) :
    draft.add scope source =
      { draft with faults := draft.faults ++
          [.collision (scope.hints.classNameFor source.schemaId) first source.schemaId] } := by
  unfold add
  dsimp only
  rw [h]

/-- A class whose name is not taken is added with everything noted for it. -/
theorem add_of_fresh {scope : Scope} {draft : ModelDraft} {source : ClassSource}
    (h : draft.taken.get? (scope.hints.classNameFor source.schemaId) = none) :
    draft.add scope source =
      let model := scope.classModel source (scope.hints.classNameFor source.schemaId)
      { taken := draft.taken ++ [(scope.hints.classNameFor source.schemaId, source.schemaId)]
        classes := insertClass model.value.name model.value draft.classes
        faults := draft.faults ++ model.faults
        warnings := draft.warnings ++ model.warnings } := by
  unfold add
  dsimp only
  rw [h]

/-- A step adds the class of its source at most, under the name of the class. -/
theorem mem_add {scope : Scope} {draft : ModelDraft} {source : ClassSource} {e : String × ClassModel}
    (h : e ∈ (draft.add scope source).classes) :
    (∃ name, e = (name, (scope.classModel source name).value)) ∨ e ∈ draft.classes := by
  unfold add at h
  dsimp only at h
  split at h
  · exact Or.inr h
  · exact (mem_insertClass h).imp_left fun he => ⟨_, he⟩

/-- What holds of the class of every source holds of every class of a model. -/
theorem forall_ofSchema {P : String × ClassModel → Prop} {s : Schema} {hints : HintTable}
    {rootClass : String}
    (h : ∀ source ∈ s.classSources rootClass, ∀ name,
      P (name, ((Scope.mk s.definitions hints).classModel source name).value)) :
    ∀ e ∈ (ofSchema s hints rootClass).classes, P e := by
  suffices hfold : ∀ (sources : List ClassSource), sources ⊆ s.classSources rootClass →
      ∀ draft : ModelDraft, (∀ e ∈ draft.classes, P e) →
      ∀ e ∈ (sources.foldl (add ⟨s.definitions, hints⟩) draft).classes, P e from
    hfold _ (List.Subset.refl _) {} nofun
  intro sources hsources
  induction sources with
  | nil => exact fun draft hd => hd
  | cons source sources ih =>
    rw [List.cons_subset] at hsources
    refine fun draft hd => ih hsources.2 _ fun e he => ?_
    rcases mem_add he with ⟨name, rfl⟩ | he
    · exact h source hsources.1 name
    · exact hd e he

end ModelDraft

namespace Registry

variable {s : Schema} {hints : HintTable} {rootClass : String} {r : Registry}

/-- The classes of a model that is built, and their names, are those of its draft. -/
theorem eq_of_build (hr : build s hints rootClass = .ok r) :
    r = .ofEntries (ModelDraft.ofSchema s hints rootClass).classes := by
  unfold build at hr
  dsimp only at hr
  split at hr
  · exact (Except.ok.inj hr).symm
  · cases hr

theorem forall_of_build {P : ClassModel → Prop} (hr : build s hints rootClass = .ok r)
    (h : ∀ source ∈ s.classSources rootClass, ∀ name,
      P ((Scope.mk s.definitions hints).classModel source name).value) :
    ∀ c ∈ r.classes, P c := by
  rw [eq_of_build hr]
  intro c hc
  obtain ⟨e, he, rfl⟩ := List.mem_map.1 hc
  exact ModelDraft.forall_ofSchema (P := fun e => P e.2) h e he

theorem keyed_of_build (hr : build s hints rootClass = .ok r) : r.Keyed := by
  rw [eq_of_build hr]
  exact ModelDraft.forall_ofSchema fun source _ name => rfl

theorem names_of_build (hr : build s hints rootClass = .ok r) : r.names = r.entries.keys := by
  rw [eq_of_build hr]
  rfl

end Registry

theorem Noted.value_collect {α : Type} (xs : List (Noted α)) :
    (collect xs).value = xs.map Noted.value := by
  induction xs with
  | nil => rfl
  | cons x xs ih => exact congrArg (x.value :: ·) ih

/-- The properties of a class are those of its schema, one by one. -/
theorem Scope.properties_classModel (scope : Scope) (source : ClassSource) (name : String) :
    (scope.classModel source name).value.properties = source.schema.properties.map fun f =>
      (scope.property source.schemaId source.schema f.1 f.2).value := by
  have hcollect : (scope.classModel source name).value.properties =
      (Noted.collect (source.schema.properties.map fun f =>
        scope.property source.schemaId source.schema f.1 f.2)).value := rfl
  rw [hcollect, Noted.value_collect, List.map_map]
  rfl

theorem Scope.exists_of_mem_classModel {scope : Scope} {source : ClassSource} {name : String}
    {p : Property} (h : p ∈ (scope.classModel source name).value.properties) :
    ∃ jsonName s, p = (scope.property source.schemaId source.schema jsonName s).value := by
  rw [properties_classModel] at h
  obtain ⟨f, -, rfl⟩ := List.mem_map.1 h
  exact ⟨f.1, f.2, rfl⟩

/-! ### Names of properties -/

/-- Whether no schema that can give a class repeats the name of a property. What is read from a text
is so (`Schema.distinctNames_ofText`). -/
def Schema.DistinctNames (s : Schema) : Prop :=
  (Fields.keys s.properties).Nodup ∧ ∀ d ∈ s.definitions, (Fields.keys d.2.properties).Nodup

/-- Whether no two properties have the same name in instances. -/
def ClassModel.DistinctKeys (c : ClassModel) : Prop :=
  (c.properties.map Property.jsonName).Nodup

theorem Schema.nodup_of_mem_classSources {s : Schema} (hs : s.DistinctNames) {rootClass : String}
    {source : ClassSource} (h : source ∈ s.classSources rootClass) :
    (Fields.keys source.schema.properties).Nodup := by
  unfold classSources at h
  rcases List.mem_append.1 h with h | h
  · split at h
    · rw [List.mem_singleton.1 h]
      exact hs.1
    · cases h
  · obtain ⟨d, hd, rfl⟩ := List.mem_map.1 h
    exact hs.2 d (List.mem_filter.1 hd).1

theorem Registry.distinctKeys_of_build {s : Schema} {hints : HintTable} {rootClass : String}
    {r : Registry} (hr : Registry.build s hints rootClass = .ok r) (hs : s.DistinctNames) :
    ∀ c ∈ r.classes, c.DistinctKeys := by
  refine forall_of_build hr fun source hsource name => ?_
  have hkeys := Schema.nodup_of_mem_classSources hs hsource
  rw [ClassModel.DistinctKeys, Scope.properties_classModel, List.map_map]
  exact hkeys

/-- Within a class the name of a property is made from its name in instances, so different names are
made from different ones. -/
theorem Registry.distinctKeys_of_nodup_names {s : Schema} {hints : HintTable} {rootClass : String}
    {r : Registry} (hr : Registry.build s hints rootClass = .ok r) :
    ∀ c ∈ r.classes, (c.properties.map Property.name).Nodup → c.DistinctKeys := by
  refine forall_of_build hr fun source _ name hnames => ?_
  let named (jsonName : String) : String :=
    (hints.propertyName? source.schemaId jsonName).getD (Text.upperCamel jsonName)
  refine List.Nodup.of_map named ?_
  rw [Scope.properties_classModel, List.map_map] at hnames
  rw [Scope.properties_classModel, List.map_map, List.map_map]
  exact hnames

/-! ### Classes without comparers -/

/-- Whether every property is compared in the way that goes with its shape. -/
def Registry.ComparesByShape (r : Registry) : Prop :=
  ∀ c ∈ r.classes, ∀ p ∈ c.properties, p.comparison = p.shape.comparison

/-- Whether every property is evaluated in the way that goes with its shape. -/
def Registry.EvaluatesByShape (r : Registry) : Prop :=
  ∀ c ∈ r.classes, ∀ p ∈ c.properties, p.evaluated = p.shape.comparison

/-- Such a property is evaluated as its shape is. -/
theorem Property.evaluated_of_comparison {p : Property} (h : p.comparison = p.shape.comparison) :
    p.evaluated = p.shape.comparison := by
  unfold evaluated
  rw [h]
  cases p.shape <;> rfl

/-- **Only a hint makes a property be compared in another way than its shape.** -/
theorem Registry.comparesByShape_of_build {s : Schema} {hints : HintTable} {rootClass : String}
    {r : Registry} (hr : Registry.build s hints rootClass = .ok r)
    (hh : ∀ schemaId property, hints.comparer? schemaId property = none) : r.ComparesByShape := by
  refine forall_of_build hr fun source _ name p hp => ?_
  obtain ⟨jsonName, s, rfl⟩ := Scope.exists_of_mem_classModel hp
  simp only [Scope.property, Noted.map, hh]

/-- **Comparers play no part in what instances are.** A property that a hint gives a comparer is
evaluated by its shape, like every other one. -/
theorem Scope.evaluated_property (scope : Scope) (schemaId jsonName : String) (owner s : Schema) :
    (scope.property schemaId owner jsonName s).value.evaluated =
      (scope.propertyShape ⟨schemaId, jsonName⟩ s).value.comparison := by
  cases hcomparer : scope.hints.comparer? schemaId jsonName with
  | none =>
    apply Property.evaluated_of_comparison
    simp only [property, Noted.map, hcomparer]
  | some comparer => simp only [Property.evaluated, property, Noted.map, hcomparer]

/-- Whether a visitor goes into the properties whose shapes hold classes, and into no others. -/
def Registry.VisitsByShape (r : Registry) : Prop :=
  ∀ c ∈ r.classes, ∀ p ∈ c.properties, p.isVisitable = p.shape.containsClass

theorem Registry.visitsByShape_of_build {s : Schema} {hints : HintTable} {rootClass : String}
    {r : Registry} (hr : Registry.build s hints rootClass = .ok r) : r.VisitsByShape := by
  refine forall_of_build hr fun source _ name p hp => ?_
  obtain ⟨jsonName, s, rfl⟩ := Scope.exists_of_mem_classModel hp
  rfl

theorem Registry.evaluatesByShape_of_build {s : Schema} {hints : HintTable} {rootClass : String}
    {r : Registry} (hr : Registry.build s hints rootClass = .ok r) : r.EvaluatesByShape := by
  refine forall_of_build hr fun source _ name p hp => ?_
  obtain ⟨jsonName, s, rfl⟩ := Scope.exists_of_mem_classModel hp
  exact Scope.evaluated_property _ _ _ _ _

/-! ### The registry of trees is built -/

/-- What the class of trees is made from. -/
def treeSource : ClassSource where
  schemaId := "Tree"
  schema := { properties := [
    ("height", { type := some (.one .number) }),
    ("below", {
      type := some (.one .array), items := some { reference := some "#/definitions/Tree" } }),
    ("marks", {
      type := some (.one .object)
      additionalProperties := some (.schema { type := some (.one .string) }) })] }

/-- A schema for `Registry.trees`. -/
def treeSchema : Schema := { definitions := [("Tree", treeSource.schema)] }

theorem distinctNames_treeSchema : treeSchema.DistinctNames := by
  refine ⟨List.nodup_nil, fun d hd => ?_⟩
  cases List.mem_singleton.1 hd
  decide

def treeScope : Scope := ⟨treeSchema.definitions, {}⟩

theorem classModel_treeSource :
    treeScope.classModel treeSource "Tree" = { value := Registry.trees.classes.head! } := by
  have hheight (site : Site) : treeScope.classify site [] { type := some (.one .number) } =
      { value := .scalar .number } := by
    rw [Scope.classify]
    rfl
  have hbelow (site : Site) : treeScope.classify site [] {
      type := some (.one .array), items := some { reference := some "#/definitions/Tree" } } =
      { value := .array (.ofClass "Tree") } := by
    rw [Scope.classify]
    simp only [Schema.effectiveType, Schema.safeType]
    rw [Scope.classify]
    simp only [Scope.resolve]
    rfl
  have hmarks (site : Site) : treeScope.classify site [] {
      type := some (.one .object)
      additionalProperties := some (.schema { type := some (.one .string) }) } =
      { value := .map (.scalar .string) } := by
    rw [Scope.classify]
    simp only [Schema.effectiveType, Schema.safeType]
    rw [Scope.classify]
    rfl
  have hshape (site : Site) (schema : Schema) :
      treeScope.propertyShape site schema = treeScope.classify site [] schema := rfl
  simp only [Scope.classModel, treeSource, List.map, Scope.property, hshape, hheight, hbelow, hmarks]
  rfl

theorem build_treeSchema : Registry.build treeSchema {} "Root" = .ok Registry.trees := by
  have hadd : ModelDraft.ofSchema treeSchema {} "Root" =
      ModelDraft.add treeScope {} treeSource := rfl
  rw [Registry.build, hadd, ModelDraft.add_of_fresh rfl,
    show treeScope.hints.classNameFor treeSource.schemaId = "Tree" from rfl, classModel_treeSource]
  rfl

end Classwright
