import Mathlib.Data.List.Forall2
import Mathlib.Data.List.TakeWhile
import Classwright.Proofs.Model.Renaming

/-!
# Which hints a model depends on

Hints are kept by identifier, and classes and properties share the identifiers: that of a property is
the name of its definition, a point, and its own name. A name may have points in it, so one identifier can
be looked up at several places, and an identifier that belongs to no definition can be looked up as well.

## The architecture

* **`Scope.Consults`**, **`Scope.ConsultsFor`** — the identifiers that are looked up for a property, and for
  the class of a source.
* **`property_congr`**, **`noted_congr`**, **`build_congr`** — nothing else in a table matters.
* **`Schema.Misreported`** — the identifiers that are looked up although they are reported as ignored
  (`misreported_iff_consulted`).
* **`forall₂_classes_drafted`** — a relation between the classes of two scopes that keeps names is one
  between their models, class by class.
-/

namespace Classwright

namespace Scope

/-- The identifiers of hints that a property depends on: its own, and those of definitions that it
names. -/
def Consults (scope : Scope) (site : Site) (s : Schema) (schemaId : String) : Prop :=
  schemaId = propertyKey site.schemaId site.property ∨ scope.Names site s schemaId

/-- The identifiers of hints that the class of a source depends on. -/
def ConsultsFor (scope : Scope) (source : ClassSource) (schemaId : String) : Prop :=
  schemaId = source.schemaId ∨
    ∃ p ∈ source.schema.properties, scope.Consults ⟨source.schemaId, p.1⟩ p.2 schemaId

/-- A chain of one step names what its reference says, if anything. -/
theorem Names.of_done {scope : Scope} {site : Site} {s : Schema} {definition : String}
    {result : Noted Shape} (h : scope.Names site s definition)
    (hhint : scope.hints.dictionary? site.schemaId site.property = none)
    (hdone : scope.onward site [] s = .done result) :
    s.reference.bind definitionName? = some definition := by
  cases h with
  | reference hstart hto =>
    obtain ⟨y, fragment, hwalk, hr, hn, -⟩ := hto
    rw [start?, hhint] at hstart
    cases hstart
    cases (walk_iff_of_done hdone).1 hwalk
    rw [hr]
    exact hn
  | valueType hvalue _ =>
    rw [hhint] at hvalue
    cases hvalue

/-! ## Tables that agree where they are looked up -/

variable {x y : Scope}

theorem classNameFor_congr {definition : String}
    (h : y.hints.get definition = x.hints.get definition) :
    y.hints.classNameFor definition = x.hints.classNameFor definition := by
  simp only [HintTable.classNameFor, HintTable.className?, h]

theorem property_congr (hd : y.definitions = x.definitions) {schemaId jsonName : String}
    {owner s : Schema}
    (h : ∀ id, x.Consults ⟨schemaId, jsonName⟩ s id → y.hints.get id = x.hints.get id) :
    y.property schemaId owner jsonName s = x.property schemaId owner jsonName s := by
  have hsame : x.hints.SameProperty y.hints schemaId jsonName := .of_get (h _ (Or.inl rfl))
  -- the two differ in names that are looked up, and these are the same
  have hmap : y.property schemaId owner jsonName s =
      (x.property schemaId owner jsonName s).map (Property.mapNames id) :=
    property_mapNames hd hsame fun definition hnames =>
      classNameFor_congr (h definition (Or.inr hnames))
  rwa [Noted.map, Property.mapNames_id] at hmap

theorem noted_congr (hd : y.definitions = x.definitions) {source : ClassSource}
    (h : ∀ id, x.ConsultsFor source id → y.hints.get id = x.hints.get id) :
    y.noted source = x.noted source := by
  have hown := h source.schemaId (Or.inl rfl)
  have hproperties : source.schema.properties.map (fun p =>
        y.property source.schemaId source.schema p.1 p.2) =
      source.schema.properties.map fun p =>
        x.property source.schemaId source.schema p.1 p.2 :=
    List.map_congr_left fun p hp => property_congr hd fun id hid => h id (Or.inr ⟨p, hp, hid⟩)
  rw [noted_eq, noted_eq, hproperties, nameOf, nameOf, classNameFor_congr hown,
    HintTable.baseTypes, HintTable.baseTypes, hown]

/-- A step depends on the class of its source and on what is noted for it. -/
theorem add_congr {source : ClassSource} (h : y.noted source = x.noted source)
    (draft : ModelDraft) : draft.add y source = draft.add x source := by
  have hname : y.hints.classNameFor source.schemaId = x.hints.classNameFor source.schemaId :=
    congrArg (fun n => n.value.name) h
  rw [noted, noted, nameOf, nameOf, hname] at h
  unfold ModelDraft.add
  dsimp only
  rw [hname, h]

theorem drafted_congr {sources : List ClassSource}
    (h : ∀ source ∈ sources, y.noted source = x.noted source) :
    y.drafted sources = x.drafted sources :=
  List.foldl_ext _ _ _ fun draft source hsource => add_congr (h source hsource) draft

end Scope

/-- **A model depends on the hints that are looked up for its classes, and on no other ones.** -/
theorem Registry.build_congr {s : Schema} {hints hints' : HintTable} {rootClass : String}
    (h : ∀ source ∈ s.classSources rootClass, ∀ id, (s.scope hints).ConsultsFor source id →
      hints'.get id = hints.get id) :
    build s hints' rootClass = build s hints rootClass := by
  have hdrafted : (s.scope hints').drafted (s.classSources rootClass) =
      (s.scope hints).drafted (s.classSources rootClass) :=
    Scope.drafted_congr fun source hsource =>
      Scope.noted_congr (x := s.scope hints) (y := s.scope hints') rfl (h source hsource)
  rw [build_eq, build_eq, hdrafted]

/-! ## Hints that are reported as ignored -/

theorem toList_propertyKey (definition property : String) :
    (propertyKey definition property).toList = definition.toList ++ '.' :: property.toList := by
  simp [propertyKey]

theorem hintedDefinition_of_not_mem {schemaId : String} (h : '.' ∉ schemaId.toList) :
    hintedDefinition schemaId = schemaId := by
  have htake : schemaId.toList.takeWhile (· ≠ '.') = schemaId.toList := by
    rw [List.takeWhile_eq_self_iff]
    intro c hc
    exact decide_eq_true fun heq => h (heq ▸ hc)
  rw [hintedDefinition, htake, String.ofList_toList]

theorem hintedDefinition_propertyKey {definition : String} (h : '.' ∉ definition.toList)
    (property : String) : hintedDefinition (propertyKey definition property) = definition := by
  have hall : ∀ c ∈ definition.toList, decide (c ≠ '.') = true :=
    fun c hc => decide_eq_true fun heq => h (heq ▸ hc)
  rw [hintedDefinition, toList_propertyKey, List.takeWhile_append_of_pos hall,
    List.takeWhile_cons_of_neg (by decide), List.append_nil, String.ofList_toList]

theorem mem_hintTargetWarnings {s : Schema} {hints : HintTable} {rootClass schemaId : String} :
    .unknownHintTarget schemaId ∈ hintTargetWarnings s hints rootClass ↔
      schemaId ∈ hints.schemaIds ∧ hintedDefinition schemaId ≠ rootClass ∧
        Fields.contains s.definitions (hintedDefinition schemaId) = false := by
  simp [hintTargetWarnings]

/-- A table without the hints of one identifier. -/
def HintTable.without (t : HintTable) (schemaId : String) : HintTable :=
  ⟨t.entries.filter fun entry => entry.1 ≠ schemaId⟩

theorem Fields.get?_filter_ne {α : Type} (fields : Fields α) {key other : String} (h : key ≠ other) :
    get? (fields.filter fun field => field.1 ≠ other) key = get? fields key := by
  induction fields with
  | nil => rfl
  | cons field fields ih =>
    rw [get?_cons]
    by_cases hfield : field.1 = other
    · rw [List.filter_cons_of_neg (by simpa using hfield), ih,
        if_neg fun heq => h (heq.trans hfield)]
    · rw [List.filter_cons_of_pos (by simpa using hfield), get?_cons, ih]

theorem HintTable.get_without (t : HintTable) {schemaId key : String} (h : key ≠ schemaId) :
    (t.without schemaId).get key = t.get key :=
  congrArg (·.getD []) (Fields.get?_filter_ne t.entries h)

namespace Schema

theorem known_of_mem_classSources {s : Schema} {rootClass : String} {source : ClassSource}
    (h : source ∈ s.classSources rootClass) :
    source.schemaId = rootClass ∨ Fields.contains s.definitions source.schemaId = true := by
  rcases List.mem_append.1 h with hroot | hdefinition
  · split at hroot
    · cases List.mem_singleton.1 hroot
      exact Or.inl rfl
    · cases hroot
  · obtain ⟨definition, hmem, rfl⟩ := List.mem_map.1 hdefinition
    refine Or.inr (List.any_eq_true.2 ⟨definition, (List.mem_filter.1 hmem).1, ?_⟩)
    exact beq_self_eq_true _

/-- The identifiers that a warning says are ignored, though hints for them are looked up. The warning
goes by what stands before the first point and by the definitions that there are. -/
inductive Misreported (s : Schema) (hints : HintTable) (rootClass schemaId : String) : Prop where
  /-- A class, or a property of a class, if the identifier of the class has a point in it. -/
  | pointed {source : ClassSource} (hsource : source ∈ s.classSources rootClass)
      (hpoint : '.' ∈ source.schemaId.toList)
      (hid : schemaId = source.schemaId ∨
        ∃ p ∈ source.schema.properties, schemaId = propertyKey source.schemaId p.1)
  /-- A definition that a property names, if there is none, or if its name has a point in it. -/
  | named {source : ClassSource} {p : String × Schema}
      (hsource : source ∈ s.classSources rootClass) (hp : p ∈ source.schema.properties)
      (hnames : (s.scope hints).Names ⟨source.schemaId, p.1⟩ p.2 schemaId)
      (hunknown : Fields.contains s.definitions schemaId = false ∨ '.' ∈ schemaId.toList)

variable {s : Schema} {hints : HintTable} {rootClass schemaId : String}

/-- **Which reported identifiers are looked up.** What is looked up for a class is known to the warning,
unless there are points in the wrong places or the definition does not exist. -/
theorem misreported_iff_consulted
    (hreported : .unknownHintTarget schemaId ∈ hintTargetWarnings s hints rootClass) :
    s.Misreported hints rootClass schemaId ↔
      ∃ source ∈ s.classSources rootClass, (s.scope hints).ConsultsFor source schemaId := by
  constructor
  · rintro (⟨hsource, -, hid | ⟨p, hp, hid⟩⟩ | ⟨hsource, hp, hnames, -⟩)
    · exact ⟨_, hsource, Or.inl hid⟩
    · exact ⟨_, hsource, Or.inr ⟨p, hp, Or.inl hid⟩⟩
    · exact ⟨_, hsource, Or.inr ⟨_, hp, Or.inr hnames⟩⟩
  · rintro ⟨source, hsource, hconsults⟩
    obtain ⟨-, hroot, hdefinition⟩ := mem_hintTargetWarnings.1 hreported
    -- the part before the first point is no source, so it is not the identifier of the class
    have hother : hintedDefinition schemaId ≠ source.schemaId := by
      intro heq
      rcases known_of_mem_classSources hsource with h | h
      · exact hroot (heq.trans h)
      · rw [← heq, hdefinition] at h
        cases h
    rcases hconsults with rfl | ⟨p, hp, rfl | hnames⟩
    · by_cases hpoint : '.' ∈ source.schemaId.toList
      · exact .pointed hsource hpoint (Or.inl rfl)
      · exact absurd (hintedDefinition_of_not_mem hpoint) hother
    · by_cases hpoint : '.' ∈ source.schemaId.toList
      · exact .pointed hsource hpoint (Or.inr ⟨p, hp, rfl⟩)
      · exact absurd (hintedDefinition_propertyKey hpoint p.1) hother
    · refine .named hsource hp hnames (or_iff_not_imp_right.2 fun hpoint => ?_)
      rwa [hintedDefinition_of_not_mem hpoint] at hdefinition

end Schema

/-- **A hint that is reported as ignored is ignored**, unless it is misreported: without it, the same
files are generated, or the same faults are found. -/
theorem generate_without_reported {s : Schema} {hints : HintTable} {settings : Settings}
    {schemaId : String}
    (hreported : .unknownHintTarget schemaId ∈
      hintTargetWarnings s hints (settings.rootClass s.title))
    (hright : ¬ s.Misreported hints (settings.rootClass s.title) schemaId) :
    generate s (hints.without schemaId) settings = generate s hints settings := by
  have hbuild : Registry.build s (hints.without schemaId) (settings.rootClass s.title) =
      Registry.build s hints (settings.rootClass s.title) := by
    refine Registry.build_congr fun source hsource id hconsults => hints.get_without ?_
    rintro rfl
    exact hright ((Schema.misreported_iff_consulted hreported).2 ⟨source, hsource, hconsults⟩)
  rw [generate, generate, hbuild]

/-- A property that refers to a definition which does not exist. -/
def holderSchema : Schema := {
  definitions := [
    ("holder", (singleSource "holder" "part" { reference := some "#/definitions/part" }).schema)] }

/-- Hints for two definitions that do not exist. -/
def holderHints : HintTable := ⟨[("part", [.className "Widget"]), ("bolt", [.className "Nut"])]⟩

/-- The model of `holderSchema`, where the class of the part has a given name. -/
def Registry.holder (part : String) : Registry := .ofClasses [{
  schemaId := "holder", name := "Holder", description := none, baseTypes := []
  properties := [Registry.trees.property "part" "Part" (.ofClass part)] }]

theorem build_holderSchema :
    Registry.build holderSchema holderHints "Root" = .ok (Registry.holder "Widget") ∧
      Registry.build holderSchema (holderHints.without "part") "Root" =
        .ok (Registry.holder "Part") := by
  have hshape (hints : HintTable) (hhint : hints.dictionary? "holder" "part" = none) :
      (holderSchema.scope hints).propertyShape ⟨"holder", "part"⟩
        { reference := some "#/definitions/part" } =
      ⟨.ofClass (hints.classNameFor "part"), [], [.unknownDefinition "holder" "part" "part"]⟩ := by
    rw [Scope.propertyShape, Schema.scope, hhint]
    exact (Scope.classify_eq_onward _ _).trans rfl
  have hnoted (hints : HintTable) (hhint : hints.dictionary? "holder" "part" = none) :
      (holderSchema.classSources "Root").map (holderSchema.scope hints).noted = [_] :=
    congrArg (fun n => [n]) (Scope.noted_singleSource (hshape hints hhint))
  constructor
  · exact Registry.build_of_noted (hnoted holderHints rfl) (by decide) (by simp)
  · exact Registry.build_of_noted (hnoted (holderHints.without "part") rfl) (by decide) (by simp)

/-- The name of the class of the part stands in the code. -/
theorem unitsOf_holder_inj {settings : Settings} {rootClass part part' : String}
    (h : unitsOf settings rootClass (Registry.holder part) =
      unitsOf settings rootClass (Registry.holder part')) : part = part' := by
  have hmembers : some (Code.Member.property (Emit.storedProperty
      (Registry.trees.property "part" "Part" (.ofClass part)))) =
      some (Code.Member.property (Emit.storedProperty
        (Registry.trees.property "part" "Part" (.ofClass part')))) :=
    congrArg (fun units => units.head?.bind fun u => u.decl.members[1]?) h
  have hstored := Code.Member.property.inj (Option.some.inj hmembers)
  exact Code.TypeRef.named.inj (congrArg Code.PropertyDecl.type hstored)

theorem generate_without_reported_holder :
    .unknownHintTarget "bolt" ∈ hintTargetWarnings holderSchema holderHints "Root" ∧
      .unknownHintTarget "part" ∈ hintTargetWarnings holderSchema holderHints "Root" ∧
      generate holderSchema (holderHints.without "bolt") {} = generate holderSchema holderHints {} ∧
      generate holderSchema (holderHints.without "part") {} ≠
        generate holderSchema holderHints {} := by
  have hbolt : .unknownHintTarget "bolt" ∈ hintTargetWarnings holderSchema holderHints "Root" :=
    mem_hintTargetWarnings.2 (by decide)
  have hpart : .unknownHintTarget "part" ∈ hintTargetWarnings holderSchema holderHints "Root" :=
    mem_hintTargetWarnings.2 (by decide)
  refine ⟨hbolt, hpart, generate_without_reported hbolt ?_, ?_⟩
  · rintro (⟨hsource, hpoint, -⟩ | ⟨hsource, hp, hnames, -⟩)
    · cases List.mem_singleton.1 hsource
      revert hpoint
      decide
    · cases List.mem_singleton.1 hsource
      cases List.mem_singleton.1 hp
      have hdone : (holderSchema.scope holderHints).onward ⟨"holder", "part"⟩ []
          { reference := some "#/definitions/part" } = .done _ := rfl
      have hnamed := hnames.of_done rfl hdone
      revert hnamed
      decide
  · have hwith : generate holderSchema holderHints {} = .ok _ :=
      congrArg (Except.map (unitsOf {} "Root")) build_holderSchema.1
    have hwithout : generate holderSchema (holderHints.without "part") {} = .ok _ :=
      congrArg (Except.map (unitsOf {} "Root")) build_holderSchema.2
    rw [hwith, hwithout]
    intro heq
    have hname := unitsOf_holder_inj (Except.ok.inj heq)
    revert hname
    decide

/-! ## Hints for one property -/

/-- Whether two classes differ at most in one property, and only if they are the class of the given
identifier. -/
structure ClassModel.SameExcept (definition property : String) (c d : ClassModel) : Prop where
  schemaId : c.schemaId = d.schemaId
  name : c.name = d.name
  description : c.description = d.description
  baseTypes : c.baseTypes = d.baseTypes
  properties : List.Forall₂ (fun p q => p = q ∨
    c.schemaId = definition ∧ p.jsonName = property ∧ q.jsonName = property) c.properties d.properties

/-- Related classes are put in the same place. -/
theorem forall₂_insertClass {R : ClassModel → ClassModel → Prop} (name : String) {c d : ClassModel}
    (h : R c d) {xs ys : Fields ClassModel}
    (hs : List.Forall₂ (fun e e' => e.1 = e'.1 ∧ R e.2 e'.2) xs ys) :
    List.Forall₂ (fun e e' => e.1 = e'.1 ∧ R e.2 e'.2) (insertClass name c xs)
      (insertClass name d ys) := by
  induction hs with
  | nil => exact .cons ⟨rfl, h⟩ .nil
  | @cons e e' xs ys h' hs ih =>
    rw [insertClass, insertClass, h'.1]
    split
    · exact .cons ⟨rfl, h⟩ (.cons ⟨rfl, h'.2⟩ hs)
    · split
      · exact .cons ⟨rfl, h'.2⟩ ih
      · exact .cons ⟨rfl, h⟩ hs

namespace Scope

variable {x y : Scope}

/-- **Sources that give related classes in two scopes give related models.** A relation between classes
of the same name is enough: the names decide which classes there are, and where they stand. -/
theorem forall₂_classes_drafted {R : ClassModel → ClassModel → Prop}
    (hname : ∀ c d, R c d → c.name = d.name) {sources : List ClassSource}
    (h : ∀ source ∈ sources, R (x.classOf source) (y.classOf source)) :
    List.Forall₂ (fun e e' => e.1 = e'.1 ∧ R e.2 e'.2) (x.drafted sources).classes
      (y.drafted sources).classes := by
  induction sources using List.reverseRecOn with
  | nil => exact .nil
  | append_singleton sources source ih =>
    have hsource := h source (List.mem_append_right _ (List.mem_singleton_self source))
    have ih := ih fun source' hsource' => h source' (List.mem_append_left _ hsource')
    -- whether a name is taken depends on the names before it, and these are the same
    have hown : x.nameOf source = y.nameOf source := hname _ _ hsource
    have hclaim : x.claimant? sources (x.nameOf source) = y.claimant? sources (y.nameOf source) := by
      rw [hown]
      exact claimant?_congr (fun source' hsource' =>
        hname _ _ (h source' (List.mem_append_left _ hsource'))) _
    cases hx : x.claimant? sources (x.nameOf source) with
    | some first =>
      rw [drafted_concat_of_claimed hx, drafted_concat_of_claimed (hclaim.symm.trans hx)]
      exact ih
    | none =>
      rw [(drafted_concat_of_fresh hx).1, (drafted_concat_of_fresh (hclaim.symm.trans hx)).1, hown]
      exact forall₂_insertClass _ hsource ih

/-- The class of a source, if one identifier is looked up for one of its properties only. -/
theorem classOf_sameExcept (hd : y.definitions = x.definitions) {definition property : String}
    (hother : ∀ id, id ≠ propertyKey definition property → y.hints.get id = x.hints.get id)
    {source : ClassSource} (hclass : source.schemaId ≠ propertyKey definition property)
    (honly : ∀ p ∈ source.schema.properties,
      x.Consults ⟨source.schemaId, p.1⟩ p.2 (propertyKey definition property) →
        source.schemaId = definition ∧ p.1 = property) :
    (x.classOf source).SameExcept definition property (y.classOf source) := by
  have hown := hother _ hclass
  constructor
  case schemaId => rfl
  case name => exact (classNameFor_congr hown).symm
  case description => rfl
  case baseTypes => exact congrArg (List.flatMap _) hown.symm
  case properties =>
    rw [classOf, classOf, noted, noted, properties_classModel, properties_classModel,
      List.forall₂_map_left_iff, List.forall₂_map_right_iff, List.forall₂_same]
    intro p hp
    by_cases hat : source.schemaId = definition ∧ p.1 = property
    · exact Or.inr ⟨hat.1, hat.2, hat.2⟩
    · -- every other property looks up other identifiers
      refine Or.inl (congrArg Noted.value (property_congr hd fun id hid => hother id ?_).symm)
      rintro rfl
      exact hat (honly p hp hid)

end Scope

namespace Registry

variable {s : Schema} {hints hints' : HintTable} {rootClass definition property : String}
  {r r' : Registry}

/-- **Hints for a property change this property and nothing else**, if their identifier is looked up for
it only: it is not that of a class, nor of another property, and no other property names a definition
by it. -/
theorem build_property_hint_local
    (hother : ∀ id, id ≠ propertyKey definition property → hints'.get id = hints.get id)
    (hclass : ∀ source ∈ s.classSources rootClass,
      source.schemaId ≠ propertyKey definition property)
    (honly : ∀ source ∈ s.classSources rootClass, ∀ p ∈ source.schema.properties,
      (s.scope hints).Consults ⟨source.schemaId, p.1⟩ p.2 (propertyKey definition property) →
        source.schemaId = definition ∧ p.1 = property)
    (hr : build s hints rootClass = .ok r) (hr' : build s hints' rootClass = .ok r') :
    List.Forall₂ (ClassModel.SameExcept definition property) r.classes r'.classes := by
  obtain ⟨-, rfl⟩ := build_eq_ok_iff.1 hr
  obtain ⟨-, rfl⟩ := build_eq_ok_iff.1 hr'
  have hdrafted := Scope.forall₂_classes_drafted (fun _ _ h => h.name) fun source hsource =>
    Scope.classOf_sameExcept (x := s.scope hints) (y := s.scope hints') rfl hother
      (hclass source hsource) (honly source hsource)
  exact List.forall₂_map_left_iff.2 (List.forall₂_map_right_iff.2 (hdrafted.imp fun _ _ h => h.2))

end Registry

/-- Two definitions: the identifier of a property of the first one is that of a property of the second
one, too. -/
def geoSchema : Schema := {
  definitions := [
    ("geo", (singleSource "geo" "point.x" { type := some (.one .integer) }).schema),
    ("geo.point", (singleSource "geo.point" "x" { type := some (.one .integer) }).schema)] }

def geoHints : HintTable := ⟨[("geo.point.x", [.propertyName "PointX"])]⟩

/-- The model of `geoSchema`, where the property of the second class has a given name. -/
def Registry.geo (x : String) : Registry := .ofClasses [
  { schemaId := "geo", name := "Geo", description := none, baseTypes := []
    properties := [trees.property "point.x" "PointX" (.scalar .integer)] },
  { schemaId := "geo.point", name := "GeoPoint", description := none, baseTypes := []
    properties := [trees.property "x" x (.scalar .integer)] }]

theorem Scope.propertyShape_integer {scope : Scope} {site : Site}
    (hhint : scope.hints.dictionary? site.schemaId site.property = none) :
    scope.propertyShape site { type := some (.one .integer) } = { value := .scalar .integer } := by
  rw [propertyShape, hhint]
  exact (classify_eq_onward _ _).trans rfl

namespace Registry

theorem build_geoSchema :
    build geoSchema {} "Root" = .ok (geo "X") ∧
      build geoSchema geoHints "Root" = .ok (geo "PointX") := by
  have hnoted (hints : HintTable) (hgeo : hints.dictionary? "geo" "point.x" = none)
      (hpoint : hints.dictionary? "geo.point" "x" = none) :
      (geoSchema.classSources "Root").map (geoSchema.scope hints).noted = [_, _] :=
    congrArg₂ (fun m n => [m, n]) (Scope.noted_singleSource (Scope.propertyShape_integer hgeo))
      (Scope.noted_singleSource (Scope.propertyShape_integer hpoint))
  constructor
  · exact build_of_noted (hnoted {} rfl rfl) (by decide) (by simp)
  · exact build_of_noted (hnoted geoHints rfl rfl) (by decide) (by simp)

/-- A hint for a property of one class changes a property of another one. -/
theorem property_hint_reaches_other_class :
    "Root" ∉ Fields.keys geoSchema.definitions ∧
      (∀ id, id ≠ propertyKey "geo" "point.x" → geoHints.get id = ({} : HintTable).get id) ∧
      build geoSchema {} "Root" = .ok (geo "X") ∧
      build geoSchema geoHints "Root" = .ok (geo "PointX") ∧
      ¬ List.Forall₂ (ClassModel.SameExcept "geo" "point.x") (geo "X").classes
        (geo "PointX").classes := by
  refine ⟨by decide, fun id hid => ?_, build_geoSchema.1, build_geoSchema.2, ?_⟩
  · have hkey : id ≠ "geo.point.x" := hid
    rw [HintTable.get, geoHints, Fields.get?_cons, if_neg hkey]
    rfl
  · rintro (_ | ⟨-, hsecond⟩)
    obtain ⟨hpoint, -⟩ := List.forall₂_cons.1 hsecond
    obtain ⟨hx, -⟩ := List.forall₂_cons.1 hpoint.properties
    revert hx
    decide

theorem build_property_hint_local_grove :
    ∃ r r', build groveSchema groveHints "Root" = .ok r ∧
      build groveSchema (groveHints.insert "oak.height" (.propertyName "Size")) "Root" = .ok r' ∧
      List.Forall₂ (ClassModel.SameExcept "oak" "height") r.classes r'.classes := by
  have hnoted (hints : HintTable) (hoak : hints.dictionary? "oak" "height" = none)
      (helm : hints.dictionary? "elm" "height" = none) :
      (groveSchema.classSources "Root").map (groveSchema.scope hints).noted = [_, _] :=
    congrArg₂ (fun m n => [m, n]) (Scope.noted_singleSource (Scope.propertyShape_integer hoak))
      (Scope.noted_singleSource (Scope.propertyShape_integer helm))
  have hr : build groveSchema groveHints "Root" = .ok _ :=
    build_of_noted (hnoted groveHints rfl rfl) (by decide) (by simp)
  have hr' : build groveSchema (groveHints.insert "oak.height" (.propertyName "Size")) "Root" =
      .ok _ := build_of_noted (hnoted _ rfl rfl) (by decide) (by simp)
  refine ⟨_, _, hr, hr', build_property_hint_local ?_ ?_ ?_ hr hr'⟩
  · exact fun id hid => (groveHints.get_insert _ _ id).trans (if_neg hid)
  · decide
  · intro source hsource p hp hconsults
    rcases List.mem_cons.1 hsource with rfl | hsource
    · cases List.mem_singleton.1 hp
      exact ⟨rfl, rfl⟩
    · cases List.mem_singleton.1 hsource
      cases List.mem_singleton.1 hp
      rcases hconsults with hkey | hnames
      · revert hkey
        decide
      · have hdone : (groveSchema.scope groveHints).onward ⟨"elm", "height"⟩ []
            { type := some (.one .integer) } = .done _ := rfl
        cases hnames.of_done rfl hdone

end Registry

end Classwright
