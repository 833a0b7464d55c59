import Mathlib.Data.List.Find
import Mathlib.Data.List.Induction
import Classwright.Proofs.Model.Build
import Classwright.Proofs.Model.Chain

/-!
# Faults of a schema

When a model can be built, and what is reported when it cannot. The sources are taken in order, and
the first one with a name takes it. A later source with that name is a collision, and it is left out:
nothing is noted for its properties, not even a malformed reference.

## The architecture

* **`Scope.claimant?`** — the source that takes a name, which is all that the names taken so far come to
  (`get?_taken`).
* **`Scope.faultsAt`** — what is noted for a source after those before it. The faults of a schema are
  these, one after another (`faults_drafted_concat`).
* **`Scope.Misdirects`** — a property leads to a malformed reference. Hints for dictionaries say where its
  chain starts (`Scope.start?`).
* **`faults_drafted_eq_nil_iff`**, **`perm_classes_drafted`** — without a fault there is one class for each
  source.
-/

namespace Classwright

/-! ## Faults of a source -/

theorem Fields.get?_concat {α : Type} (fields : Fields α) (key' : String) (v : α) (key : String) :
    get? (fields ++ [(key', v)]) key = (get? fields key).or (if key' = key then some v else none) := by
  unfold get?
  rw [List.lookup_append, List.lookup_cons, List.lookup_nil]
  by_cases h : key' = key
  · simp [h]
  · simp [h, beq_false_of_ne (Ne.symm h)]

theorem Noted.faults_collect {α : Type} (xs : List (Noted α)) :
    (Noted.collect xs).faults = xs.flatMap Noted.faults := by
  induction xs with
  | nil => rfl
  | cons x xs ih => rw [Noted.collect, List.flatMap_cons, ih]

namespace Scope

/-- The name of the class of a source. -/
def nameOf (scope : Scope) (source : ClassSource) : String :=
  scope.hints.classNameFor source.schemaId

/-- The class of a source, with everything noted for it. -/
def noted (scope : Scope) (source : ClassSource) : Noted ClassModel :=
  scope.classModel source (scope.nameOf source)

/-- The class of a source. -/
def classOf (scope : Scope) (source : ClassSource) : ClassModel := (scope.noted source).value

/-- The schema that classification of a property starts with. A hint for a dictionary passes over the
property itself, and one with a type for the values leaves nothing to classify. -/
def start? (scope : Scope) (site : Site) (s : Schema) : Option Schema :=
  match scope.hints.dictionary? site.schemaId site.property with
  | none => some s
  | some (some _) => none
  | some none =>
    match s.additionalProperties with
    | some (.schema value) => some value
    | _ => none

/-- A property of a source leads to a malformed reference. -/
def Misdirects (scope : Scope) (source : ClassSource) (jsonName fragment : String) : Prop :=
  ∃ s t, (jsonName, s) ∈ source.schema.properties ∧
    scope.start? ⟨source.schemaId, jsonName⟩ s = some t ∧ scope.ExpandsTo t fragment ∧
    ¬ NamesDefinition fragment

variable {scope : Scope}

theorem mem_faults_propertyShape {site : Site} {s : Schema} {fault : ModelFault} :
    fault ∈ (scope.propertyShape site s).faults ↔
      ∃ t fragment, scope.start? site s = some t ∧ scope.ExpandsTo t fragment ∧
        ¬ NamesDefinition fragment ∧ fault = .reference site.schemaId site.property fragment := by
  have hclassify (t : Schema) : fault ∈ (scope.classify site [] t).faults ↔
      ∃ fragment, scope.ExpandsTo t fragment ∧ ¬ NamesDefinition fragment ∧
        fault = .reference site.schemaId site.property fragment := by
    rw [mem_faults_classify]
    constructor
    · rintro ⟨y, fragment, hwalk, hr, h⟩
      exact ⟨fragment, ⟨y, hwalk, hr⟩, h⟩
    · rintro ⟨fragment, ⟨y, hwalk, hr⟩, h⟩
      exact ⟨y, fragment, hwalk, hr, h⟩
  unfold propertyShape start?
  cases scope.hints.dictionary? site.schemaId site.property with
  | none => simp [hclassify]
  | some keyword? =>
    cases keyword? with
    | some keyword => simp
    | none =>
      cases s.additionalProperties with
      | none => simp
      | some additional => cases additional <;> simp [hclassify, Noted.faults_map]

theorem mem_faults_noted {source : ClassSource} {fault : ModelFault} :
    fault ∈ (scope.noted source).faults ↔
      ∃ jsonName fragment, scope.Misdirects source jsonName fragment ∧
        fault = .reference source.schemaId jsonName fragment := by
  rw [noted, classModel, Noted.faults_map, Noted.faults_collect]
  simp only [List.flatMap_map, List.mem_flatMap, property, Noted.faults_map,
    mem_faults_propertyShape]
  constructor
  · rintro ⟨⟨jsonName, s⟩, hs, t, fragment, ht, hto, hbad, rfl⟩
    exact ⟨jsonName, fragment, ⟨s, t, hs, ht, hto, hbad⟩, rfl⟩
  · rintro ⟨jsonName, fragment, ⟨s, t, hs, ht, hto, hbad⟩, rfl⟩
    exact ⟨(jsonName, s), hs, t, fragment, ht, hto, hbad, rfl⟩

/-! ## Faults of all sources -/

/-- The source that takes a name. -/
def claimant? (scope : Scope) (sources : List ClassSource) (name : String) : Option ClassSource :=
  sources.find? fun source => scope.nameOf source == name

/-- What is noted for a source after those before it. -/
def faultsAt (scope : Scope) (before : List ClassSource) (source : ClassSource) : List ModelFault :=
  match scope.claimant? before (scope.nameOf source) with
  | some first => [.collision (scope.nameOf source) first.schemaId source.schemaId]
  | none => (scope.noted source).faults

theorem claimant?_concat (sources : List ClassSource) (source : ClassSource) (name : String) :
    scope.claimant? (sources ++ [source]) name =
      (scope.claimant? sources name).or (if scope.nameOf source = name then some source else none) := by
  unfold claimant?
  rw [List.find?_append]
  by_cases h : scope.nameOf source = name <;> simp [h]

theorem claimant?_eq_none_iff {sources : List ClassSource} {name : String} :
    scope.claimant? sources name = none ↔ name ∉ sources.map scope.nameOf := by
  rw [claimant?, List.find?_eq_none]
  simp

/-- A source takes its name if no source before it has the name. -/
theorem claimant?_eq_some_iff {sources : List ClassSource} {name : String} {first : ClassSource} :
    scope.claimant? sources name = some first ↔ scope.nameOf first = name ∧
      ∃ before after, sources = before ++ first :: after ∧ scope.claimant? before name = none := by
  simp [claimant?, List.find?_eq_some_iff_append]

/-- Who takes a name depends on the names of the sources. -/
theorem claimant?_congr {other : Scope} {sources : List ClassSource}
    (h : ∀ source ∈ sources, other.nameOf source = scope.nameOf source) (name : String) :
    other.claimant? sources name = scope.claimant? sources name :=
  List.find?_congr fun source hsource => by rw [h source hsource]

/-- The model of sources with everything noted on the way. -/
def drafted (scope : Scope) (sources : List ClassSource) : ModelDraft :=
  sources.foldl (ModelDraft.add scope) {}

theorem drafted_concat (sources : List ClassSource) (source : ClassSource) :
    scope.drafted (sources ++ [source]) = (scope.drafted sources).add scope source := by
  rw [drafted, List.foldl_concat]
  rfl

/-- The names taken are those of the sources so far, each for the first source that has it. -/
theorem get?_taken (sources : List ClassSource) (name : String) :
    (scope.drafted sources).taken.get? name =
      (scope.claimant? sources name).map ClassSource.schemaId := by
  induction sources using List.reverseRecOn generalizing name with
  | nil => rfl
  | append_singleton sources source ih =>
    rw [drafted_concat, claimant?_concat, Option.map_or, ← ih name]
    cases htaken : (scope.drafted sources).taken.get? (scope.nameOf source) with
    | some first =>
      rw [ModelDraft.add_of_taken htaken]
      by_cases h : scope.nameOf source = name
      · rw [← h, htaken]
        rfl
      · simp [h]
    | none =>
      rw [ModelDraft.add_of_fresh htaken]
      dsimp only
      rw [← nameOf, Fields.get?_concat]
      by_cases h : scope.nameOf source = name <;> simp [h]

/-- **What a step does with a source**, in terms of the sources before it. -/
theorem drafted_concat_of_claimed {sources : List ClassSource} {source first : ClassSource}
    (h : scope.claimant? sources (scope.nameOf source) = some first) :
    scope.drafted (sources ++ [source]) =
      { scope.drafted sources with
        faults := (scope.drafted sources).faults ++
          [.collision (scope.nameOf source) first.schemaId source.schemaId] } := by
  rw [drafted_concat]
  exact ModelDraft.add_of_taken (by rw [← nameOf, get?_taken, h]; rfl)

theorem drafted_concat_of_fresh {sources : List ClassSource} {source : ClassSource}
    (h : scope.claimant? sources (scope.nameOf source) = none) :
    (scope.drafted (sources ++ [source])).classes =
        insertClass (scope.nameOf source) (scope.classOf source) (scope.drafted sources).classes ∧
      (scope.drafted (sources ++ [source])).faults =
        (scope.drafted sources).faults ++ (scope.noted source).faults := by
  have hfresh : (scope.drafted sources).taken.get? (scope.nameOf source) = none := by
    rw [get?_taken, h]
    rfl
  rw [drafted_concat, ModelDraft.add_of_fresh hfresh]
  exact ⟨rfl, rfl⟩

theorem faults_drafted_concat (sources : List ClassSource) (source : ClassSource) :
    (scope.drafted (sources ++ [source])).faults =
      (scope.drafted sources).faults ++ scope.faultsAt sources source := by
  unfold faultsAt
  cases h : scope.claimant? sources (scope.nameOf source) with
  | some first => rw [drafted_concat_of_claimed h]
  | none => exact (drafted_concat_of_fresh h).2

theorem faultsAt_congr {other : Scope} {before : List ClassSource} {source : ClassSource}
    (hbefore : ∀ source ∈ before, other.nameOf source = scope.nameOf source)
    (hname : other.nameOf source = scope.nameOf source)
    (hfaults : (other.noted source).faults = (scope.noted source).faults) :
    other.faultsAt before source = scope.faultsAt before source := by
  unfold faultsAt
  rw [claimant?_congr hbefore, hname, hfaults]

/-- The faults depend on the names of the sources and on what is noted for each of them. -/
theorem faults_drafted_congr {other : Scope} {sources : List ClassSource}
    (hname : ∀ source ∈ sources, other.nameOf source = scope.nameOf source)
    (hfaults : ∀ source ∈ sources, (other.noted source).faults = (scope.noted source).faults) :
    (other.drafted sources).faults = (scope.drafted sources).faults := by
  induction sources using List.reverseRecOn with
  | nil => rfl
  | append_singleton sources source ih =>
    simp only [List.forall_mem_append, List.forall_mem_singleton] at hname hfaults
    rw [faults_drafted_concat, faults_drafted_concat, ih hname.1 hfaults.1,
      faultsAt_congr hname.1 hname.2 hfaults.2]

/-- **The faults of sources are those noted for one of them after those before it.** -/
theorem mem_faults_drafted {sources : List ClassSource} {fault : ModelFault} :
    fault ∈ (scope.drafted sources).faults ↔
      ∃ before source after, sources = before ++ source :: after ∧
        fault ∈ scope.faultsAt before source := by
  induction sources using List.reverseRecOn with
  | nil => simp [drafted]
  | append_singleton sources last ih =>
    rw [faults_drafted_concat, List.mem_append, ih]
    constructor
    · rintro (⟨before, source, after, rfl, hfault⟩ | hfault)
      · exact ⟨before, source, after ++ [last], by simp, hfault⟩
      · exact ⟨sources, last, [], rfl, hfault⟩
    · rintro ⟨before, source, after, hsplit, hfault⟩
      -- the source is the last one, or it stands before it
      rcases List.eq_nil_or_concat after with rfl | ⟨after, last', rfl⟩
      · obtain ⟨rfl, hlast⟩ := List.append_inj' hsplit rfl
        cases hlast
        exact Or.inr hfault
      · rw [List.concat_eq_append, ← List.cons_append, ← List.append_assoc] at hsplit
        obtain ⟨rfl, -⟩ := List.append_inj' hsplit rfl
        exact Or.inl ⟨before, source, after, rfl, hfault⟩

theorem collision_mem_faults_drafted {sources : List ClassSource} {name first second : String} :
    .collision name first second ∈ (scope.drafted sources).faults ↔
      ∃ before source after claimant, sources = before ++ source :: after ∧
        scope.claimant? before (scope.nameOf source) = some claimant ∧
        name = scope.nameOf source ∧ first = claimant.schemaId ∧ second = source.schemaId := by
  rw [mem_faults_drafted]
  unfold faultsAt
  constructor
  · rintro ⟨before, source, after, hsplit, hfault⟩
    cases hclaim : scope.claimant? before (scope.nameOf source) with
    | some claimant =>
      simp only [hclaim, List.mem_singleton, ModelFault.collision.injEq] at hfault
      exact ⟨before, source, after, claimant, hsplit, hclaim, hfault⟩
    | none =>
      simp only [hclaim] at hfault
      obtain ⟨_, _, -, heq⟩ := mem_faults_noted.1 hfault
      cases heq
  · rintro ⟨before, source, after, claimant, hsplit, hclaim, rfl, rfl, rfl⟩
    refine ⟨before, source, after, hsplit, ?_⟩
    rw [hclaim]
    exact List.mem_singleton_self _

/-- A malformed reference is noted for a source that takes its name, and for no other one. -/
theorem reference_mem_faults_drafted {sources : List ClassSource}
    {schemaId jsonName fragment : String} :
    .reference schemaId jsonName fragment ∈ (scope.drafted sources).faults ↔
      ∃ source, scope.claimant? sources (scope.nameOf source) = some source ∧
        source.schemaId = schemaId ∧ scope.Misdirects source jsonName fragment := by
  rw [mem_faults_drafted]
  unfold faultsAt
  constructor
  · rintro ⟨before, source, after, hsplit, hfault⟩
    cases hclaim : scope.claimant? before (scope.nameOf source) with
    | some first => simp [hclaim] at hfault
    | none =>
      simp only [hclaim] at hfault
      obtain ⟨jsonName', fragment', hmis, heq⟩ := mem_faults_noted.1 hfault
      cases heq
      exact ⟨source, claimant?_eq_some_iff.2 ⟨rfl, before, after, hsplit, hclaim⟩, rfl, hmis⟩
  · rintro ⟨source, hclaim, rfl, hmis⟩
    obtain ⟨-, before, after, hsplit, hfresh⟩ := claimant?_eq_some_iff.1 hclaim
    refine ⟨before, source, after, hsplit, ?_⟩
    rw [hfresh]
    exact mem_faults_noted.2 ⟨jsonName, fragment, hmis, rfl⟩

theorem faultsAt_eq_nil_iff {before : List ClassSource} {source : ClassSource} :
    scope.faultsAt before source = [] ↔
      scope.nameOf source ∉ before.map scope.nameOf ∧ (scope.noted source).faults = [] := by
  rw [← claimant?_eq_none_iff]
  unfold faultsAt
  cases scope.claimant? before (scope.nameOf source) <;> simp

/-- **Sources have no fault if no name is taken twice and none of them has one.** -/
theorem faults_drafted_eq_nil_iff {sources : List ClassSource} :
    (scope.drafted sources).faults = [] ↔ (sources.map scope.nameOf).Nodup ∧
      ∀ source ∈ sources, (scope.noted source).faults = [] := by
  induction sources using List.reverseRecOn with
  | nil => simp [drafted]
  | append_singleton sources source ih =>
    rw [faults_drafted_concat, List.append_eq_nil_iff, ih, faultsAt_eq_nil_iff, List.map_append,
      List.map_singleton, List.nodup_append_comm, List.singleton_append, List.nodup_cons]
    simp only [List.mem_append, List.mem_singleton, or_imp, forall_and, forall_eq]
    tauto

theorem faults_noted_eq_nil_iff {source : ClassSource} :
    (scope.noted source).faults = [] ↔
      ∀ jsonName fragment, ¬ scope.Misdirects source jsonName fragment := by
  rw [List.eq_nil_iff_forall_not_mem]
  simp only [mem_faults_noted]
  constructor
  · exact fun h jsonName fragment hmis => h _ ⟨jsonName, fragment, hmis, rfl⟩
  · rintro h fault ⟨jsonName, fragment, hmis, -⟩
    exact h jsonName fragment hmis

/-! ## The classes of a model -/

/-- Each source has its class under its name. -/
theorem perm_entries_drafted {sources : List ClassSource}
    (h : (sources.map scope.nameOf).Nodup) :
    (scope.drafted sources).classes.Perm
      (sources.map fun source => (scope.nameOf source, scope.classOf source)) := by
  induction sources using List.reverseRecOn with
  | nil => exact .nil
  | append_singleton sources source ih =>
    rw [List.map_append, List.map_singleton, List.nodup_append_comm, List.singleton_append,
      List.nodup_cons] at h
    have hkeys : (scope.drafted sources).classes.keys.Perm (sources.map scope.nameOf) := by
      have hperm := (ih h.2).map Prod.fst
      rwa [List.map_map] at hperm
    rw [(drafted_concat_of_fresh (claimant?_eq_none_iff.2 h.1)).1, List.map_append]
    refine (perm_insertClass _ fun hmem => h.1 (hkeys.mem_iff.1 hmem)).trans ?_
    exact ((ih h.2).cons _).trans (List.perm_append_singleton _ _).symm

theorem perm_classes_drafted {sources : List ClassSource}
    (h : (sources.map scope.nameOf).Nodup) :
    (scope.drafted sources).registry.classes.Perm (sources.map scope.classOf) := by
  have hperm := (perm_entries_drafted h).map Prod.snd
  rwa [List.map_map] at hperm

theorem pairwise_keys_drafted (scope : Scope) (sources : List ClassSource) :
    (scope.drafted sources).classes.keys.Pairwise (· < ·) := by
  induction sources using List.reverseRecOn with
  | nil => exact .nil
  | append_singleton sources source ih =>
    cases h : scope.claimant? sources (scope.nameOf source) with
    | some first =>
      rw [drafted_concat_of_claimed h]
      exact ih
    | none =>
      rw [(drafted_concat_of_fresh h).1]
      exact pairwise_keys_insertClass _ _ ih

theorem classes_drafted {sources : List ClassSource} (h : (sources.map scope.nameOf).Nodup) :
    (scope.drafted sources).classes =
      (sources.map scope.classOf).foldl (fun entries c => insertClass c.name c entries) [] := by
  induction sources using List.reverseRecOn with
  | nil => rfl
  | append_singleton sources source ih =>
    rw [List.map_append, List.map_singleton, List.nodup_append_comm, List.singleton_append,
      List.nodup_cons] at h
    rw [(drafted_concat_of_fresh (claimant?_eq_none_iff.2 h.1)).1, ih h.2, List.map_append,
      List.map_singleton, List.foldl_concat]
    rfl

end Scope

/-- What the classification of a schema looks things up in. -/
def Schema.scope (s : Schema) (hints : HintTable) : Scope := ⟨s.definitions, hints⟩

/-- A source with one property. -/
def singleSource (schemaId jsonName : String) (s : Schema) : ClassSource where
  schemaId
  schema := { properties := [(jsonName, s)] }

theorem Scope.noted_singleSource {scope : Scope} {schemaId jsonName : String} {s : Schema}
    {shape : Shape} {warnings : List Warning}
    (h : scope.propertyShape ⟨schemaId, jsonName⟩ s = ⟨shape, [], warnings⟩) :
    scope.noted (singleSource schemaId jsonName s) = {
      value := {
        schemaId
        name := scope.hints.classNameFor schemaId
        description := none
        baseTypes := scope.hints.baseTypes schemaId
        properties := [{
          jsonName
          name := (scope.hints.propertyName? schemaId jsonName).getD (Text.upperCamel jsonName)
          shape
          kind := shape.kind
          arrayDepth := shape.arrayDepth
          isVisitable := shape.containsClass
          comparison := (scope.hints.comparer? schemaId jsonName).elim shape.comparison .custom
          required := false
          description := s.description
          modifiers := (scope.hints.modifiers? schemaId jsonName).getD ["public"] }] }
      warnings := warnings ++ [] } := by
  simp only [noted, classModel, singleSource, List.map, property, h]
  cases scope.hints.comparer? schemaId jsonName <;> rfl

namespace Registry

variable {s : Schema} {hints : HintTable} {rootClass : String}

theorem build_eq (s : Schema) (hints : HintTable) (rootClass : String) :
    build s hints rootClass =
      if ((s.scope hints).drafted (s.classSources rootClass)).faults.isEmpty then
        .ok ((s.scope hints).drafted (s.classSources rootClass)).registry
      else .error ((s.scope hints).drafted (s.classSources rootClass)).faults := rfl

/-- A model is built of sources without a fault. -/
theorem build_eq_ok_iff {r : Registry} :
    build s hints rootClass = .ok r ↔
      ((s.scope hints).drafted (s.classSources rootClass)).faults = [] ∧
        ((s.scope hints).drafted (s.classSources rootClass)).registry = r := by
  rw [build_eq]
  split <;> simp_all

/-- A model is built of what is noted for the sources, if that is known. -/
theorem build_of_noted {notes : List (Noted ClassModel)}
    (h : (s.classSources rootClass).map (s.scope hints).noted = notes)
    (hnames : (notes.map fun n => n.value.name).Nodup) (hclean : ∀ n ∈ notes, n.faults = []) :
    build s hints rootClass = .ok (.ofEntries
      ((notes.map Noted.value).foldl (fun entries c => insertClass c.name c entries) [])) := by
  subst h
  rw [List.map_map] at hnames ⊢
  refine build_eq_ok_iff.2 ⟨Scope.faults_drafted_eq_nil_iff.2 ⟨hnames, fun source hsource => ?_⟩, ?_⟩
  · exact hclean _ (List.mem_map_of_mem hsource)
  · exact congrArg ofEntries (Scope.classes_drafted hnames)

/-- Sources whose names are in order give the classes in this order. -/
theorem build_of_sorted {notes : List (Noted ClassModel)}
    (h : (s.classSources rootClass).map (s.scope hints).noted = notes)
    (hnames : (notes.map fun n => n.value.name).Pairwise (· < ·))
    (hclean : ∀ n ∈ notes, n.faults = []) :
    build s hints rootClass = .ok (.ofClasses (notes.map Noted.value)) := by
  have hnodup : (notes.map fun n => n.value.name).Nodup := hnames.imp fun h => String.ne_of_lt h
  rw [build_of_noted h hnodup hclean, foldl_insertClass_of_sorted (by rwa [List.map_map]), ofClasses]

/-- **A model is built of a clean schema, and of no other one.** It is clean if no two sources have the
same name and no property leads to a malformed reference. The model then has one class for each
source. -/
theorem build_succeeds_iff_clean (s : Schema) (hints : HintTable) (rootClass : String) :
    ((∃ r, build s hints rootClass = .ok r) ↔
      ((s.classSources rootClass).map (s.scope hints).nameOf).Nodup ∧
        ∀ source ∈ s.classSources rootClass, ∀ jsonName fragment,
          ¬ (s.scope hints).Misdirects source jsonName fragment) ∧
    ∀ r, build s hints rootClass = .ok r →
      r.classes.Perm ((s.classSources rootClass).map (s.scope hints).classOf) := by
  constructor
  · simp only [← Scope.faults_noted_eq_nil_iff, ← Scope.faults_drafted_eq_nil_iff]
    simp [build_eq_ok_iff]
  · intro r hr
    obtain ⟨hclean, rfl⟩ := build_eq_ok_iff.1 hr
    exact Scope.perm_classes_drafted (Scope.faults_drafted_eq_nil_iff.1 hclean).1

theorem build_succeeds_iff_clean_trees :
    (∃ r, build treeSchema {} "Root" = .ok r) ∧
      ∀ jsonName fragment, ¬ (treeSchema.scope {}).Misdirects treeSource jsonName fragment := by
  have hok : ∃ r, build treeSchema {} "Root" = .ok r := ⟨_, build_treeSchema⟩
  exact ⟨hok, ((build_succeeds_iff_clean treeSchema {} "Root").1.1 hok).2 treeSource
    List.mem_cons_self⟩

/-- **Which malformed references are reported.** A schema with one is refused, and every collision of
names is reported. A malformed reference of a source is reported if the source takes its name: the
properties of a source that comes second are passed over. -/
theorem build_reports_references {source : ClassSource} {jsonName fragment : String} {p : Schema}
    (hsource : source ∈ s.classSources rootClass) (hp : (jsonName, p) ∈ source.schema.properties)
    (hhint : hints.dictionary? source.schemaId jsonName = none)
    (hleads : (s.scope hints).LeadsTo p fragment) (hbad : ¬ NamesDefinition fragment) :
    ∃ faults, build s hints rootClass = .error faults ∧
      (∀ before second after first, s.classSources rootClass = before ++ second :: after →
        (s.scope hints).claimant? before ((s.scope hints).nameOf second) = some first →
        .collision ((s.scope hints).nameOf second) first.schemaId second.schemaId ∈ faults) ∧
      ((s.scope hints).claimant? (s.classSources rootClass) ((s.scope hints).nameOf source) =
          some source → .reference source.schemaId jsonName fragment ∈ faults) ∧
      ∃ first, (s.scope hints).claimant? (s.classSources rootClass) ((s.scope hints).nameOf source) =
          some first ∧
        (.reference source.schemaId jsonName fragment ∈ faults ↔
          first.schemaId = source.schemaId ∧ (s.scope hints).Misdirects first jsonName fragment) := by
  have hmis : (s.scope hints).Misdirects source jsonName fragment := by
    refine ⟨p, p, hp, ?_, (Scope.expandsTo_iff_leadsTo hbad).2 hleads, hbad⟩
    simp [Scope.start?, Schema.scope, hhint]
  have hfaulty : ((s.scope hints).drafted (s.classSources rootClass)).faults ≠ [] := by
    intro hnil
    have hclean := (Scope.faults_drafted_eq_nil_iff.1 hnil).2 source hsource
    exact Scope.faults_noted_eq_nil_iff.1 hclean jsonName fragment hmis
  refine ⟨_, (build_eq s hints rootClass).trans (if_neg (by simpa using hfaulty)), ?_, ?_, ?_⟩
  · intro before second after first hsplit hclaim
    exact Scope.collision_mem_faults_drafted.2
      ⟨before, second, after, first, hsplit, hclaim, rfl, rfl, rfl⟩
  · exact fun hfirst => Scope.reference_mem_faults_drafted.2 ⟨source, hfirst, rfl, hmis⟩
  · obtain ⟨first, hfirst⟩ := Option.ne_none_iff_exists'.1 fun hnone =>
      Scope.claimant?_eq_none_iff.1 hnone (List.mem_map_of_mem hsource)
    refine ⟨first, hfirst, Scope.reference_mem_faults_drafted.trans ⟨?_, ?_⟩⟩
    · rintro ⟨other, hother, hid, hmis⟩
      have hname : (s.scope hints).nameOf other = (s.scope hints).nameOf source := by
        rw [Scope.nameOf, Scope.nameOf, hid]
      rw [hname, hfirst] at hother
      cases hother
      exact ⟨hid, hmis⟩
    · rintro ⟨hid, hmis⟩
      have hname := (Scope.claimant?_eq_some_iff.1 hfirst).1
      exact ⟨first, hname ▸ hfirst, hid, hmis⟩

/-- A source whose name is taken in `collidingSchema`, with a malformed reference. -/
def collidingSource : ClassSource where
  schemaId := "foo_bar"
  schema := { properties := [("link", { reference := some "#/elsewhere" })] }

def collidingSchema : Schema := {
  definitions := [
    ("fooBar", { properties := [("size", { type := some (.one .integer) })] }),
    ("foo_bar", collidingSource.schema)] }

/-- The malformed reference of `collidingSource` is not reported. -/
theorem build_reports_references_colliding :
    ∃ faults, build collidingSchema {} "Root" = .error faults ∧
      .collision "FooBar" "fooBar" "foo_bar" ∈ faults ∧
      .reference "foo_bar" "link" "#/elsewhere" ∉ faults := by
  have hsource : collidingSource ∈ collidingSchema.classSources "Root" :=
    List.mem_cons_of_mem _ List.mem_cons_self
  have hleads : (collidingSchema.scope {}).LeadsTo { reference := some "#/elsewhere" } "#/elsewhere" :=
    ⟨_, .refl, rfl⟩
  have hbad : ¬ NamesDefinition "#/elsewhere" := definitionName?_eq_none_iff.1 (by decide)
  obtain ⟨faults, herror, hcollisions, -, first, hfirst, hreported⟩ :=
    build_reports_references hsource List.mem_cons_self rfl hleads hbad
  refine ⟨faults, herror, hcollisions [_] collidingSource [] _ rfl rfl, fun hmem => ?_⟩
  cases hfirst
  have hid := (hreported.1 hmem).1
  revert hid
  decide

end Registry

end Classwright
