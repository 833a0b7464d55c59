import Classwright.Proofs.Generate.Names

/-!
# Properties of generated classes

A class declares the property for its kind and one property for each property of its schema, under the
name that a hint gives or that the words of the JSON name make up. Different JSON names can make up one
name: `foo_bar` and `fooBar` are both `FooBar`, and `sNodeKind` is the name of the property for the kind.
Classes that would get one name are refused. Nothing is said about properties, and then a class declares
one property twice.

* **`ClassSource.Clashes`** — two properties of a source get one name, or one gets that of the kind.
* **`propertyNames_classUnit`** — what the unit of a class declares.
* **`generate_declares_once_iff`** — every class declares each property once, unless names clash.
-/

namespace Classwright

open Code Emit

/-- The name of a property, if a member is one. -/
def Code.Member.propertyName? : Member → Option String
  | property p => some p.name
  | _ => none

/-- The names of the properties that a type declares, in order. -/
def Code.TypeDecl.propertyNames (d : TypeDecl) : List String := d.members.filterMap Member.propertyName?

/-- The name of a property in the generated code: a hint decides, else the words of the JSON name. -/
def HintTable.memberName (hints : HintTable) (schemaId jsonName : String) : String :=
  (hints.propertyName? schemaId jsonName).getD (Text.upperCamel jsonName)

/-- Two properties of a source get one name, or one of them gets the name of the property for the kind. -/
def ClassSource.Clashes (source : ClassSource) (hints : HintTable) (kindName : String) : Prop :=
  ∃ key ∈ Fields.keys source.schema.properties,
    hints.memberName source.schemaId key = kindName ∨
      ∃ other ∈ Fields.keys source.schema.properties, other ≠ key ∧
        hints.memberName source.schemaId other = hints.memberName source.schemaId key

/-! ## What a unit declares -/

theorem filterMap_method (methods : List MethodDecl) :
    (methods.map Member.method).filterMap Member.propertyName? = [] := by
  rw [List.filterMap_map, List.filterMap_eq_nil_iff]
  exact fun _ _ => rfl

theorem filterMap_storedProperty (properties : List Property) :
    (properties.map fun p => Member.property (storedProperty p)).filterMap Member.propertyName? =
      properties.map Property.name := by
  rw [List.filterMap_map]
  exact congrFun (List.filterMap_eq_map (f := Property.name)) properties

/-- The unit of a class declares the property for the kind, then its own properties. -/
theorem propertyNames_classUnit (settings : Settings) (c : ClassModel) :
    (classUnit settings c).decl.propertyNames =
      settings.kindEnumName :: c.properties.map Property.name := by
  have hequality : (if settings.generateEquality then equalityMembers c else []).filterMap
      Member.propertyName? = [] := by
    split
    · exact filterMap_method _
    · rfl
  have hmembers : (classMembers settings c).filterMap Member.propertyName? =
      settings.kindEnumName :: c.properties.map Property.name := by
    have hkind : (.property (kindProperty settings c) :: c.properties.map fun p =>
        Member.property (storedProperty p)).filterMap Member.propertyName? =
        settings.kindEnumName :: c.properties.map Property.name := by
      rw [← filterMap_storedProperty]
      rfl
    unfold classMembers
    rw [List.filterMap_append, List.filterMap_append, List.filterMap_append, filterMap_method, hkind]
    simp [Member.propertyName?]
  unfold TypeDecl.propertyNames classUnit
  dsimp only
  rw [List.filterMap_append, hequality, hmembers, List.append_nil]

/-- The visitor has methods only. -/
theorem propertyNames_visitorUnit (settings : Settings) (r : Registry)
    (schemaName className : String) :
    (visitorUnit settings r schemaName className).decl.propertyNames = [] := by
  unfold TypeDecl.propertyNames visitorUnit
  dsimp only
  rw [List.filterMap_append, List.filterMap_map]
  simp [Member.propertyName?, Function.comp_def]

/-- The members of a class are named by the JSON names of its source. -/
theorem Scope.names_classOf (scope : Scope) (source : ClassSource) :
    (scope.classOf source).properties.map Property.name =
      (Fields.keys source.schema.properties).map (scope.hints.memberName source.schemaId) := by
  rw [classOf, noted, properties_classModel, List.map_map, Fields.keys, List.map_map]
  rfl

/-- A class declares a property twice where the names of its source clash, and nowhere else. -/
theorem ClassSource.nodup_iff_not_clashes {source : ClassSource}
    (hkeys : (Fields.keys source.schema.properties).Nodup) (hints : HintTable) (kindName : String) :
    (kindName :: (Fields.keys source.schema.properties).map
      (hints.memberName source.schemaId)).Nodup ↔ ¬ source.Clashes hints kindName := by
  rw [List.nodup_cons, List.nodup_map_iff_inj_on hkeys]
  constructor
  · rintro ⟨hkind, hinj⟩ ⟨key, hkey, heq | ⟨other, hother, hne, heq⟩⟩
    · exact hkind (List.mem_map.2 ⟨key, hkey, heq⟩)
    · exact hne (hinj other hother key hkey heq)
  · intro hclash
    constructor
    · intro hmem
      obtain ⟨key, hkey, heq⟩ := List.mem_map.1 hmem
      exact hclash ⟨key, hkey, Or.inl heq⟩
    · intro other hother key hkey heq
      by_contra hne
      exact hclash ⟨key, hkey, Or.inr ⟨other, hother, hne, heq⟩⟩

/-! ## All units -/

/-- The class units are those of the classes and that of the visitor. -/
theorem mem_unitsOf_of_classType {settings : Settings} {rootClass : String} {r : Registry}
    {unit : CompilationUnit} (h : unit ∈ unitsOf settings rootClass r)
    (hkind : unit.decl.kind = .classType) :
    (∃ c ∈ r.classes, unit = classUnit settings c) ∨ unit.decl.propertyNames = [] := by
  unfold unitsOf at h
  dsimp only at h
  rcases List.mem_append.1 h with h | h
  · rcases List.mem_append.1 h with h | h
    · obtain ⟨c, hc, rfl⟩ := List.mem_map.1 h
      obtain ⟨name, -, hget⟩ := List.mem_filterMap.1 hc
      exact Or.inl ⟨c, Registry.mem_of_get? hget, rfl⟩
    · -- the enumeration and the interface are no classes
      simp only [List.mem_cons, List.not_mem_nil, or_false] at h
      rcases h with rfl | rfl <;> cases hkind
  · split at h
    · rw [List.mem_singleton.1 h]
      exact Or.inr (propertyNames_visitorUnit _ _ _ _)
    · cases h

/-- **When every class declares each property once**: if no two properties of a schema get one name, and
none gets the name of the property for the kind. The unit of a class declares one property for each
property of its schema, whether the names clash or not. -/
theorem generate_declares_once_iff {s : Schema} {hints : HintTable} {settings : Settings}
    {units : List CompilationUnit} (hs : s.DistinctNames)
    (h : generate s hints settings = .ok units) :
    ((∀ unit ∈ units, unit.decl.kind = .classType → unit.decl.propertyNames.Nodup) ↔
      ∀ source ∈ s.classSources (settings.rootClass s.title),
        ¬ source.Clashes hints settings.kindEnumName) ∧
    ∀ source ∈ s.classSources (settings.rootClass s.title), ∃ unit ∈ units,
      unit.decl.kind = .classType ∧ unit.decl.name = hints.classNameFor source.schemaId ∧
      unit.decl.propertyNames = settings.kindEnumName ::
        (Fields.keys source.schema.properties).map (hints.memberName source.schemaId) ∧
      (unit.decl.propertyNames.Nodup ↔ ¬ source.Clashes hints settings.kindEnumName) := by
  obtain ⟨r, hr, rfl⟩ := generate_eq_ok_iff.1 h
  have hperm := (Registry.perm_classes_of_build hr).2
  have hdeclares (source : ClassSource) :
      (classUnit settings ((s.scope hints).classOf source)).decl.propertyNames =
        settings.kindEnumName :: (Fields.keys source.schema.properties).map
          (hints.memberName source.schemaId) := by
    rw [propertyNames_classUnit, Scope.names_classOf]
    rfl
  have honce (source : ClassSource) (hsource : source ∈ s.classSources (settings.rootClass s.title)) :
      (classUnit settings ((s.scope hints).classOf source)).decl.propertyNames.Nodup ↔
        ¬ source.Clashes hints settings.kindEnumName := by
    rw [hdeclares]
    exact ClassSource.nodup_iff_not_clashes (Schema.nodup_of_mem_classSources hs hsource) _ _
  have hmem (source : ClassSource) (hsource : source ∈ s.classSources (settings.rootClass s.title)) :
      classUnit settings ((s.scope hints).classOf source) ∈
        unitsOf settings (settings.rootClass s.title) r :=
    classUnit_mem_unitsOf hr (hperm.mem_iff.2 (List.mem_map_of_mem hsource))
  refine ⟨⟨fun hall source hsource => ?_, fun hall unit hunit hkind => ?_⟩, fun source hsource => ?_⟩
  · exact (honce source hsource).1 (hall _ (hmem source hsource) rfl)
  · rcases mem_unitsOf_of_classType hunit hkind with ⟨c, hc, rfl⟩ | hnone
    · obtain ⟨source, hsource, rfl⟩ := List.mem_map.1 (hperm.mem_iff.1 hc)
      exact (honce source hsource).2 (hall source hsource)
    · rw [hnone]
      exact List.nodup_nil
  · exact ⟨_, hmem source hsource, rfl, rfl, hdeclares source, honce source hsource⟩

/-- A root class with two properties that get one name. -/
def twinSchema : Schema := {
  properties := [
    ("foo_bar", { type := some (.one .integer) }),
    ("fooBar", { type := some (.one .integer) })] }

/-- The class of `twinSchema` is generated, and it declares `FooBar` twice. -/
theorem generate_declares_once_iff_twins :
    ∃ units, twinSchema.DistinctNames ∧ generate twinSchema {} {} = .ok units ∧
      ∃ unit ∈ units, unit.decl.kind = .classType ∧
        unit.decl.propertyNames = ["SNodeKind", "FooBar", "FooBar"] ∧
        ¬ unit.decl.propertyNames.Nodup := by
  have hdistinct : twinSchema.DistinctNames := ⟨by decide, fun _ hd => nomatch hd⟩
  have hclean : ((twinSchema.scope {}).drafted (twinSchema.classSources "Root")).faults = [] := by
    refine Scope.faults_drafted_eq_nil_iff.2 ⟨List.nodup_singleton _, fun source hsource => ?_⟩
    have hshape (jsonName : String) : (twinSchema.scope {}).propertyShape ⟨"Root", jsonName⟩
        { type := some (.one .integer) } = { value := .scalar .integer } :=
      Scope.propertyShape_integer rfl
    rw [List.mem_singleton.1 hsource, Scope.noted, Scope.classModel, Noted.faults_map,
      Noted.faults_collect]
    simp only [twinSchema, List.map, List.flatMap_cons, Scope.property, Noted.faults_map] at hshape ⊢
    simp [hshape]
  have hbuild : Registry.build twinSchema {} "Root" = .ok _ :=
    Registry.build_eq_ok_iff.2 ⟨hclean, rfl⟩
  have hgenerate : generate twinSchema {} {} = .ok _ := generate_eq_ok_iff.2 ⟨_, hbuild, rfl⟩
  have hnames : ({} : HintTable).memberName "Root" "foo_bar" = "FooBar" ∧
      ({} : HintTable).memberName "Root" "fooBar" = "FooBar" := by
    constructor <;> decide +kernel
  obtain ⟨-, hunits⟩ := generate_declares_once_iff hdistinct hgenerate
  obtain ⟨unit, hunit, hkind, -, hdeclares, honce⟩ :=
    hunits ⟨"Root", twinSchema⟩ (List.mem_singleton_self _)
  refine ⟨_, hdistinct, hgenerate, unit, hunit, hkind, hdeclares.trans ?_, fun hnodup => ?_⟩
  · simp [twinSchema, Fields.keys, hnames]
  · refine honce.1 hnodup ⟨"foo_bar", List.mem_cons_self, Or.inr ⟨"fooBar", ?_, by decide, ?_⟩⟩
    · exact List.mem_cons_of_mem _ (List.mem_singleton_self _)
    · exact hnames.2.trans hnames.1.symm

end Classwright
