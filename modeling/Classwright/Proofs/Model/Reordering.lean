import Classwright.Generate
import Classwright.Proofs.Model.Faults

/-!
# Reordering definitions and hints

The sources of a schema are taken in the order of its definitions, and the first one with a name takes
it, so the faults that are reported depend on that order. Nothing else does. Without a fault no name
is claimed twice, and classes are kept in the order of their names.

* **`Scope.Agrees`** — two scopes in which everything is found alike. The class of a source and what is
  noted for it are the same in both (`Scope.Agrees.classModel`).
* **`Scope.drafted_of_perm`** — sources with the same classes in any order have faults or not alike, and
  without a fault they give the same registry.
-/

namespace Classwright

theorem Fields.get?_eq_of_perm {α : Type} {xs ys : Fields α} (hd : ys.keys.Nodup) (h : xs.Perm ys)
    (key : String) : xs.get? key = ys.get? key := by
  cases hx : xs.get? key with
  | some v => exact (get?_of_mem hd (h.mem_iff.1 (mem_of_get? hx))).symm
  | none =>
    cases hy : ys.get? key with
    | none => rfl
    | some v =>
      have hd' : xs.keys.Nodup := (h.map Prod.fst).nodup_iff.2 hd
      cases hx.symm.trans (get?_of_mem hd' (h.mem_iff.2 (mem_of_get? hy)))

namespace Scope

/-! ## Scopes that agree -/

/-- Whether definitions and hints are found alike. -/
structure Agrees (x y : Scope) : Prop where
  definitions : ∀ name, x.definitions.get? name = y.definitions.get? name
  hints : ∀ schemaId, x.hints.get schemaId = y.hints.get schemaId

namespace Agrees

variable {x y : Scope}

theorem classNameFor (h : x.Agrees y) (definition : String) :
    x.hints.classNameFor definition = y.hints.classNameFor definition := by
  simp only [HintTable.classNameFor, HintTable.className?, h.hints]

theorem onward (h : x.Agrees y) (site : Site) (expanding : List String) (s : Schema) :
    x.onward site expanding s = y.onward site expanding s := by
  simp only [Scope.onward, expand, h.definitions, h.classNameFor]

/-- Classification takes the same steps in both scopes. -/
theorem classify (h : x.Agrees y) (site : Site) (expanding : List String) (s : Schema) :
    x.classify site expanding s = y.classify site expanding s := by
  induction expanding, s using onward_induction x site with
  | step expanding s ih =>
    rw [classify_eq_onward, classify_eq_onward, ← h.onward site expanding s]
    cases honward : x.onward site expanding s with
    | done result => rfl
    | goOn wrap expanding' t =>
      rw [Onward.finish, Onward.finish, ih wrap expanding' t honward]

theorem propertyShape (h : x.Agrees y) (site : Site) (s : Schema) :
    x.propertyShape site s = y.propertyShape site s := by
  have hkeyword (keyword : String) : x.keywordShape keyword = y.keywordShape keyword := by
    simp only [keywordShape, className?, h.definitions, h.classNameFor]
  simp only [Scope.propertyShape, HintTable.dictionary?, HintTable.forProperty, h.hints, hkeyword,
    h.classify]

theorem classModel (h : x.Agrees y) (source : ClassSource) (name : String) :
    x.classModel source name = y.classModel source name := by
  simp only [Scope.classModel, property, h.propertyShape, HintTable.baseTypes,
    HintTable.propertyName?, HintTable.comparer?, HintTable.modifiers?, HintTable.forProperty, h.hints]

theorem noted (h : x.Agrees y) (source : ClassSource) : x.noted source = y.noted source := by
  rw [Scope.noted, Scope.noted, nameOf, nameOf, h.classNameFor, h.classModel]

end Agrees

/-! ## The order of sources -/

/-- The names of sources are those of their classes. -/
theorem map_nameOf (scope : Scope) (sources : List ClassSource) :
    sources.map scope.nameOf = (sources.map scope.noted).map fun n => n.value.name := by
  rw [List.map_map]
  rfl

/-- **The order of sources only matters for faults.** -/
theorem drafted_of_perm {x y : Scope} {sources sources' : List ClassSource}
    (h : (sources.map x.noted).Perm (sources'.map y.noted))
    (hclean : (x.drafted sources).faults = []) :
    (y.drafted sources').faults = [] ∧
      (y.drafted sources').registry = (x.drafted sources).registry := by
  obtain ⟨hnames, hnoted⟩ := faults_drafted_eq_nil_iff.1 hclean
  have hnames' : (sources'.map y.nameOf).Nodup := by
    rw [map_nameOf] at hnames ⊢
    exact (h.map _).nodup_iff.1 hnames
  have hnoted' : ∀ source ∈ sources', (y.noted source).faults = [] := by
    intro source hsource
    obtain ⟨source', hsource', heq⟩ :=
      List.mem_map.1 (h.mem_iff.2 (List.mem_map_of_mem hsource))
    rw [← heq]
    exact hnoted source' hsource'
  refine ⟨faults_drafted_eq_nil_iff.2 ⟨hnames', hnoted'⟩, ?_⟩
  have hperm : (y.drafted sources').classes.Perm (x.drafted sources).classes := by
    refine (perm_entries_drafted hnames').trans (.trans ?_ (perm_entries_drafted hnames).symm)
    have hvalues := (h.map fun n => (n.value.name, n.value)).symm
    rwa [List.map_map, List.map_map] at hvalues
  -- both are in the order of their keys
  have hsorted := List.pairwise_map.1 (pairwise_keys_drafted x sources)
  have hsorted' := List.pairwise_map.1 (pairwise_keys_drafted y sources')
  exact congrArg Registry.ofEntries (hperm.eq_of_pairwise
    (fun _ _ _ _ hlt hgt => absurd hgt (String.lt_asymm hlt)) hsorted' hsorted)

end Scope

/-! ## The files of a schema -/

section

variable {s : Schema} {hints : HintTable} {definitions : Fields Schema}
  {entries : Fields (List Hint)}

theorem Schema.scope_agrees (hkeys : (Fields.keys s.definitions).Nodup)
    (hids : hints.entries.keys.Nodup) (hd : definitions.Perm s.definitions)
    (he : entries.Perm hints.entries) :
    (Schema.scope { s with definitions } ⟨entries⟩).Agrees (s.scope hints) where
  definitions := Fields.get?_eq_of_perm hkeys hd
  hints schemaId := congrArg (·.getD []) (Fields.get?_eq_of_perm hids he schemaId)

/-- The sources of a schema give the same classes in another order. The root is a source as well, and
its own definitions play no part in its class. -/
theorem Schema.noted_classSources_perm (hkeys : (Fields.keys s.definitions).Nodup)
    (hids : hints.entries.keys.Nodup) (hd : definitions.Perm s.definitions)
    (he : entries.Perm hints.entries) (rootClass : String) :
    ((Schema.classSources { s with definitions } rootClass).map
        (Schema.scope { s with definitions } ⟨entries⟩).noted).Perm
      ((s.classSources rootClass).map (s.scope hints).noted) := by
  rw [funext (Schema.scope_agrees hkeys hids hd he).noted]
  unfold classSources
  rw [List.map_append, List.map_append]
  refine List.Perm.append (List.Perm.of_eq ?_) (((hd.filter _).map _).map _)
  have hclass : isClass { s with definitions } = s.isClass := rfl
  rw [hclass]
  split <;> rfl

theorem Registry.build_reordered (hkeys : (Fields.keys s.definitions).Nodup)
    (hids : hints.entries.keys.Nodup) (hd : definitions.Perm s.definitions)
    (he : entries.Perm hints.entries) (rootClass : String) (r : Registry) :
    build { s with definitions } ⟨entries⟩ rootClass = .ok r ↔ build s hints rootClass = .ok r := by
  have hperm := Schema.noted_classSources_perm hkeys hids hd he rootClass
  rw [build_eq_ok_iff, build_eq_ok_iff]
  constructor
  · rintro ⟨hclean, rfl⟩
    exact Scope.drafted_of_perm hperm hclean
  · rintro ⟨hclean, rfl⟩
    exact Scope.drafted_of_perm hperm.symm hclean

/-- **The order of definitions and hints is irrelevant.** Whether files are generated does not depend
on it, and the files that are generated do not, either. Definitions and identifiers of hints are keys
of maps: each one occurs once. -/
theorem generate_reordered (hkeys : (Fields.keys s.definitions).Nodup)
    (hids : hints.entries.keys.Nodup) (hd : definitions.Perm s.definitions)
    (he : entries.Perm hints.entries) (settings : Settings) (units : List Code.CompilationUnit) :
    generate { s with definitions } ⟨entries⟩ settings = .ok units ↔
      generate s hints settings = .ok units := by
  have hmap (x : Except (List ModelFault) Registry) (f : Registry → List Code.CompilationUnit) :
      x.map f = .ok units ↔ ∃ r, x = .ok r ∧ f r = units := by
    cases x <;> simp [Except.map]
  unfold generate
  simp only [hmap, Registry.build_reordered hkeys hids hd he]

end

/-- Two definitions, one of which a hint renames. -/
def groveSchema : Schema := {
  definitions := [
    ("oak", { properties := [("height", { type := some (.one .integer) })] }),
    ("elm", { properties := [("height", { type := some (.one .integer) })] })] }

def groveHints : HintTable := ⟨[("oak", [.className "Tree"]), ("elm", [.baseTypes ["Plant"]])]⟩

theorem generate_reordered_grove :
    ∃ units, generate groveSchema groveHints {} = .ok units ∧
      generate { groveSchema with definitions := groveSchema.definitions.reverse }
        ⟨groveHints.entries.reverse⟩ {} = .ok units := by
  have hplain (site : Site) : ((groveSchema.scope groveHints).classify site []
      { type := some (.one .integer) }).faults = [] := by
    rw [Scope.classify_eq_onward]
    rfl
  have hclean : ((groveSchema.scope groveHints).drafted (groveSchema.classSources "Root")).faults =
      [] := by
    refine Scope.faults_drafted_eq_nil_iff.2 ⟨by decide, List.forall_mem_cons.2 ⟨?_,
      List.forall_mem_cons.2 ⟨?_, nofun⟩⟩⟩
    · exact (List.append_nil _).trans (hplain ⟨"oak", "height"⟩)
    · exact (List.append_nil _).trans (hplain ⟨"elm", "height"⟩)
  have hbuild : Registry.build groveSchema groveHints "Root" = .ok _ :=
    Registry.build_eq_ok_iff.2 ⟨hclean, rfl⟩
  have hunits : generate groveSchema groveHints {} = .ok _ :=
    congrArg (Except.map (unitsOf {} "Root")) hbuild
  exact ⟨_, hunits, (generate_reordered (by decide) (by decide) (List.reverse_perm _)
    (List.reverse_perm _) {} _).2 hunits⟩

end Classwright
