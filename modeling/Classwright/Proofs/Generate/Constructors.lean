import Classwright.Generate
import Classwright.Proofs.Model.Locality
import Classwright.Proofs.Model.ValueTypes

/-!
# Constructors of generated classes

A class declares three constructors: one for nothing, one for all properties, and one that copies. C#
tells constructors apart by the types of their parameters. The first one has none, and the others have
some, since a class has a property. But the constructor for all properties of a class with one property,
whose type is the class itself, takes what the constructor that copies takes, and then the class declares
one constructor twice: `Node(Node next)` and `Node(Node other)`.

* **`Scope.HoldsItself`** — the only property of a source has the class of the source as its type.
* **`constructors_classUnit`** — what the unit of a class declares.
* **`constructor_signatures`** — the constructors of a class are different, unless it holds itself.
-/

namespace Classwright

open Code Emit

/-- The constructor, if a member is one. -/
def Code.Member.constructor? : Member → Option ConstructorDecl
  | ctor d => some d
  | _ => none

/-- The constructors that a type declares, in order. -/
def Code.TypeDecl.constructors (d : TypeDecl) : List ConstructorDecl :=
  d.members.filterMap Member.constructor?

/-- The types of the parameters of a constructor, by which it is told apart from others. -/
def Code.ConstructorDecl.signature (d : ConstructorDecl) : List TypeRef := d.params.map Param.type

/-- The only property of a source has a type with the name of the class. It refers to that class, or to
an alias that stands for it, or it is a primitive whose type is called like the class. -/
inductive Scope.HoldsItself (scope : Scope) (source : ClassSource) : Prop where
  | reference {jsonName fragment definition last : String} {p : Schema}
      (honly : source.schema.properties = [(jsonName, p)])
      (hfree : scope.hints.dictionary? source.schemaId jsonName = none)
      (hr : p.reference = some fragment) (hn : definitionName? fragment = some definition)
      (hlast : scope.StandsFor definition last)
      (hname : scope.hints.classNameFor last = scope.nameOf source)
  | primitive {jsonName : String} {p : Schema} {primitive : Primitive}
      (honly : source.schema.properties = [(jsonName, p)])
      (hfree : scope.hints.dictionary? source.schemaId jsonName = none)
      (hshape : (scope.classify ⟨source.schemaId, jsonName⟩ [] p).value = .scalar primitive)
      (hname : primitiveType primitive = .named (scope.nameOf source))

/-! ## What a unit declares -/

theorem filterMap_constructor?_map {α : Type} {f : α → Member} (h : ∀ x, (f x).constructor? = none)
    (l : List α) : (l.map f).filterMap Member.constructor? = [] := by
  rw [List.filterMap_map, List.filterMap_eq_nil_iff]
  exact fun x _ => h x

/-- The unit of a class declares three constructors, with equality or without. -/
theorem constructors_classUnit (settings : Settings) (c : ClassModel) :
    (classUnit settings c).decl.constructors =
      [defaultConstructor c, fullConstructor c, copyConstructor c] := by
  have hequality : (if settings.generateEquality then equalityMembers c else []).filterMap
      Member.constructor? = [] := by
    split
    · exact filterMap_constructor?_map (fun _ => rfl) _
    · rfl
  have hmethods : ((deepCloneMethods settings c).map Member.method).filterMap Member.constructor? = [] :=
    filterMap_constructor?_map (fun _ => rfl) _
  have hproperties : (.property (kindProperty settings c) :: c.properties.map fun p =>
      Member.property (storedProperty p)).filterMap Member.constructor? = [] := by
    rw [List.filterMap_cons_none rfl]
    exact filterMap_constructor?_map (fun _ => rfl) _
  unfold TypeDecl.constructors classUnit classMembers
  dsimp only
  rw [List.filterMap_append, hequality, List.filterMap_append, List.filterMap_append,
    List.filterMap_append, hmethods, hproperties]
  rfl

/-! ## Signatures -/

theorem signature_defaultConstructor (c : ClassModel) : (defaultConstructor c).signature = [] := rfl

theorem signature_copyConstructor (c : ClassModel) :
    (copyConstructor c).signature = [.named c.name] := rfl

theorem signature_fullConstructor (c : ClassModel) :
    (fullConstructor c).signature = c.properties.map fun p => propertyType p.shape := by
  rw [ConstructorDecl.signature, show (fullConstructor c).params = propertyParams c from rfl,
    propertyParams, List.map_map]
  rfl

/-- The type of a property has a name of its own if the property is a class or a primitive. -/
theorem propertyType_eq_named_iff {shape : Shape} {name : String} :
    propertyType shape = .named name ↔
      shape = .ofClass name ∨ ∃ p, shape = .scalar p ∧ primitiveType p = .named name := by
  cases shape with
  | scalar p => simp [propertyType]
  | ofClass className => simp [propertyType]
  | array element => simp [propertyType]
  | map element => simp [propertyType]

namespace Scope

variable {scope : Scope}

/-- A property with a hint for a dictionary is a map. -/
theorem shape_property_eq_map {schemaId jsonName : String} {keyword : Option String}
    (hhint : scope.hints.dictionary? schemaId jsonName = some keyword) (owner p : Schema) :
    ∃ element, (scope.property schemaId owner jsonName p).value.shape = .map element := by
  simp only [property, propertyShape, hhint, Noted.map]
  cases keyword with
  | some keyword => exact ⟨_, rfl⟩
  | none =>
    dsimp only
    split <;> exact ⟨_, rfl⟩

theorem properties_classOf (scope : Scope) (source : ClassSource) :
    (scope.classOf source).properties = source.schema.properties.map fun field =>
      (scope.property source.schemaId source.schema field.1 field.2).value := by
  rw [classOf, noted, properties_classModel]

/-- **When the constructor for all properties takes what the one that copies takes.** -/
theorem signature_fullConstructor_eq_iff (scope : Scope) (source : ClassSource) :
    (fullConstructor (scope.classOf source)).signature =
      (copyConstructor (scope.classOf source)).signature ↔ scope.HoldsItself source := by
  rw [signature_fullConstructor, signature_copyConstructor, properties_classOf, List.map_map,
    List.map_eq_singleton_iff]
  constructor
  · rintro ⟨⟨jsonName, p⟩, honly, htype⟩
    cases hhint : scope.hints.dictionary? source.schemaId jsonName with
    | some keyword =>
      -- a map has no name
      obtain ⟨element, hshape⟩ := shape_property_eq_map hhint source.schema p
      rw [Function.comp_apply, hshape] at htype
      cases htype
    | none =>
      rw [Function.comp_apply, shape_property_of_free hhint, propertyType_eq_named_iff] at htype
      rcases htype with hclass | ⟨primitive, hshape, hname⟩
      · obtain ⟨fragment, definition, last, hr, hn, hlast, hname⟩ := exists_standsFor hclass
        exact .reference honly hhint hr hn hlast hname.symm
      · exact .primitive honly hhint hshape hname
  · rintro (⟨honly, hfree, hr, hn, hlast, hname⟩ | ⟨honly, hfree, hshape, hname⟩)
    · refine ⟨_, honly, ?_⟩
      rw [Function.comp_apply, shape_property_of_free hfree,
        (classify_eq_ofClass_iff hr hn).2 ⟨_, hlast, rfl⟩, hname]
      rfl
    · refine ⟨_, honly, ?_⟩
      rw [Function.comp_apply, shape_property_of_free hfree, hshape]
      exact hname

end Scope

/-- A source has a property, or it would give no class. -/
theorem Schema.properties_ne_nil_of_mem {s : Schema} {rootClass : String} {source : ClassSource}
    (h : source ∈ s.classSources rootClass) : source.schema.properties ≠ [] := by
  have hclass : source.schema.isClass = true := by
    rcases List.mem_append.1 h with h | h
    · split at h
      · next hs => rwa [List.mem_singleton.1 h]
      · cases h
    · obtain ⟨field, hfield, rfl⟩ := List.mem_map.1 h
      exact (List.mem_filter.1 hfield).2
  intro hnil
  rw [Schema.isClass, hnil] at hclass
  split at hclass <;> cases hclass

namespace Registry

variable {s : Schema} {hints : HintTable} {rootClass : String} {r : Registry}

/-- **Which constructors of a class are told apart.** A class declares three of them. The one for nothing
differs from the others, and the other two differ unless the class holds itself and nothing else. -/
theorem constructor_signatures (hr : build s hints rootClass = .ok r) (settings : Settings)
    {c : ClassModel} (hc : c ∈ r.classes) :
    (classUnit settings c).decl.constructors =
        [defaultConstructor c, fullConstructor c, copyConstructor c] ∧
      (defaultConstructor c).signature ≠ (fullConstructor c).signature ∧
      (defaultConstructor c).signature ≠ (copyConstructor c).signature ∧
      ∃ source ∈ s.classSources rootClass, c = (s.scope hints).classOf source ∧
        ((fullConstructor c).signature = (copyConstructor c).signature ↔
          (s.scope hints).HoldsItself source) ∧
        (((classUnit settings c).decl.constructors.map ConstructorDecl.signature).Nodup ↔
          ¬ (s.scope hints).HoldsItself source) := by
  obtain ⟨source, hsource, rfl⟩ := List.mem_map.1 ((perm_classes_of_build hr).2.mem_iff.1 hc)
  have hfull : (defaultConstructor ((s.scope hints).classOf source)).signature ≠
      (fullConstructor ((s.scope hints).classOf source)).signature := by
    rw [signature_defaultConstructor, signature_fullConstructor, Scope.properties_classOf]
    exact fun hnil => Schema.properties_ne_nil_of_mem hsource
      (List.map_eq_nil_iff.1 (List.map_eq_nil_iff.1 hnil.symm))
  have hcopy : (defaultConstructor ((s.scope hints).classOf source)).signature ≠
      (copyConstructor ((s.scope hints).classOf source)).signature := (List.cons_ne_nil _ _).symm
  have hsame := (s.scope hints).signature_fullConstructor_eq_iff source
  refine ⟨constructors_classUnit settings _, hfull, hcopy, source, hsource, rfl, hsame, ?_⟩
  rw [constructors_classUnit, ← hsame]
  simp [hfull, hcopy]

end Registry

/-- Links that hold the next link, through an alias. -/
def chainSchema : Schema := {
  definitions := [
    ("link", (singleSource "link" "next" { reference := some "#/definitions/chain" }).schema),
    ("chain", { reference := some "#/definitions/link" })] }

/-- The constructor of a link from the next one has the parameters of the one that copies a link. -/
theorem Registry.constructor_signatures_chain :
    ∃ r c, build chainSchema {} "Root" = .ok r ∧ c ∈ r.classes ∧ c.name = "Link" ∧
      (fullConstructor c).signature = [.named "Link"] ∧
      (copyConstructor c).signature = [.named "Link"] ∧
      ¬ ((classUnit {} c).decl.constructors.map ConstructorDecl.signature).Nodup := by
  let scope : Scope := chainSchema.scope {}
  have hlink : scope.StandsFor "link" "link" := by
    refine .ofClass fun t ht => ?_
    cases ht
    rfl
  have hchain : scope.StandsFor "chain" "link" :=
    .reference (t := { reference := some "#/definitions/link" }) rfl rfl rfl rfl hlink
  have hholds : scope.HoldsItself
      (singleSource "link" "next" { reference := some "#/definitions/chain" }) :=
    .reference rfl rfl rfl rfl hchain rfl
  have hstep : scope.Continues (some "chain") { reference := some "#/definitions/chain" }
      { reference := some "#/definitions/link" } := .expand rfl rfl rfl rfl
  have hshape : scope.propertyShape ⟨"link", "next"⟩ { reference := some "#/definitions/chain" } =
      { value := .ofClass "Link" } := by
    have hend : scope.classify ⟨"link", "next"⟩ [] { reference := some "#/definitions/chain" } = _ :=
      Scope.classify_of_continues hstep fun _ _ => List.not_mem_nil
    rw [Scope.classify_eq_onward ((some "chain").toList ++ [])] at hend
    exact hend
  have hnoted : (chainSchema.classSources "Root").map scope.noted = [_] :=
    congrArg (fun n => [n]) (Scope.noted_singleSource hshape)
  have hbuild : build chainSchema {} "Root" = .ok _ := build_of_noted hnoted (by decide) (by simp)
  obtain ⟨-, -, -, source, hsource, -, -, honce⟩ :=
    constructor_signatures hbuild {} List.mem_cons_self
  refine ⟨_, _, hbuild, List.mem_cons_self, rfl, rfl, rfl, fun hnodup => ?_⟩
  rw [List.mem_singleton.1 hsource] at honce
  exact honce.1 hnodup hholds

end Classwright
