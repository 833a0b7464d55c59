import Mathlib.Data.List.Nodup
import Classwright.Generate
import Classwright.Proofs.Model.Locality
import Classwright.Proofs.Text.CapitalWords

/-!
# Names in generated code

What the generated types are called, and when two of them are called the same.

The class of the root schema has the identifier `settings.rootClass`, and like every class without a
hint it is named by joining the words of its identifier. So it gets the name that is set only if that
name keeps its case: `HTTPServer` gives a class `HttpServer`.

A class whose name is that of the enumeration, of the interface or of a helper of the visitor is
warned about. Three clashes go without a warning: a class with the name of the visitor, a class `None`,
whose value stands in the enumeration already, and a class without a name, whose method is `Visit`.

* **`generate_root_name`** — the name of the root class.
* **`units_names`** — the names of all units: those of the classes, then those of the support types.
* **`generate_names_nodup_iff`** — without a warning, exactly these clashes are left.
-/

namespace Classwright

open Code Emit

theorem generate_eq_ok_iff {s : Schema} {hints : HintTable} {settings : Settings}
    {units : List CompilationUnit} :
    generate s hints settings = .ok units ↔
      ∃ r, Registry.build s hints (settings.rootClass s.title) = .ok r ∧
        unitsOf settings (settings.rootClass s.title) r = units := by
  unfold generate
  dsimp only
  cases Registry.build s hints (settings.rootClass s.title) with
  | ok r => simp [Except.map]
  | error faults => simp [Except.map]

/-! ## The root class -/

theorem Schema.root_mem_classSources {s : Schema} (h : s.isClass = true) (rootClass : String) :
    ⟨rootClass, s⟩ ∈ s.classSources rootClass := by
  unfold classSources
  rw [if_pos h]
  exact List.mem_cons_self

theorem HintTable.classNameFor_of_free {hints : HintTable} {schemaId : String}
    (h : hints.className? schemaId = none) :
    hints.classNameFor schemaId = Text.upperCamel schemaId := by
  rw [classNameFor, h]
  rfl

/-- In a model an identifier belongs to one class: two sources of one identifier have one name, and
that is a collision. -/
theorem Registry.class_unique_of_build {s : Schema} {hints : HintTable} {rootClass : String}
    {r : Registry} (hr : build s hints rootClass = .ok r) {c d : ClassModel} (hc : c ∈ r.classes)
    (hd : d ∈ r.classes) (hid : d.schemaId = c.schemaId) : d = c := by
  obtain ⟨hnames, hperm⟩ := perm_classes_of_build hr
  obtain ⟨source, hsource, rfl⟩ := List.mem_map.1 (hperm.mem_iff.1 hc)
  obtain ⟨source', hsource', rfl⟩ := List.mem_map.1 (hperm.mem_iff.1 hd)
  have hname : (s.scope hints).nameOf source' = (s.scope hints).nameOf source :=
    congrArg hints.classNameFor hid
  rw [List.inj_on_of_nodup_map hnames hsource' hsource hname]

/-- Each class of a model has its unit. -/
theorem classUnit_mem_unitsOf {s : Schema} {hints : HintTable} {settings : Settings}
    {rootClass : String} {r : Registry} (hr : Registry.build s hints rootClass = .ok r)
    {c : ClassModel} (hc : c ∈ r.classes) :
    classUnit settings c ∈ unitsOf settings rootClass r := by
  unfold unitsOf
  rw [Registry.listed_of_build hr]
  exact List.mem_append_left _ (List.mem_append_left _ (List.mem_map_of_mem hc))

/-- **The root class is named by joining the words of the name that is set for it.** It is the one class
with that name as its identifier, and it is called so itself if the name is made of capital words. -/
theorem generate_root_name {s : Schema} {hints : HintTable} {settings : Settings}
    {units : List CompilationUnit} (hclass : s.isClass = true)
    (hfree : hints.className? (settings.rootClass s.title) = none)
    (h : generate s hints settings = .ok units) :
    ∃ r c, Registry.build s hints (settings.rootClass s.title) = .ok r ∧
      c ∈ r.classes ∧ classUnit settings c ∈ units ∧
      c = (s.scope hints).classOf ⟨settings.rootClass s.title, s⟩ ∧
      (∀ d ∈ r.classes, d.schemaId = settings.rootClass s.title → d = c) ∧
      c.name = Text.upperCamel (settings.rootClass s.title) ∧
      (Text.CapitalWords (settings.rootClass s.title) → c.name = settings.rootClass s.title) := by
  obtain ⟨r, hr, rfl⟩ := generate_eq_ok_iff.1 h
  have hmem := (Registry.perm_classes_of_build hr).2.mem_iff.2
    (List.mem_map_of_mem (Schema.root_mem_classSources hclass (settings.rootClass s.title)))
  have hname : ((s.scope hints).classOf ⟨settings.rootClass s.title, s⟩).name =
      Text.upperCamel (settings.rootClass s.title) := HintTable.classNameFor_of_free hfree
  refine ⟨r, _, hr, hmem, ?_, rfl, ?_, hname, ?_⟩
  · exact classUnit_mem_unitsOf hr hmem
  · intro d hd hid
    exact Registry.class_unique_of_build hr hmem hd hid
  · intro hwords
    rw [hname, Text.upperCamel_eq_self hwords]

/-- A root schema with one property. -/
def urlSchema : Schema := (singleSource "" "port" { type := some (.one .integer) }).schema

/-- The name that is set for the root class is not its name. -/
theorem generate_root_name_url :
    ∃ units r c, generate urlSchema {} { rootClassName := some "URL" } = .ok units ∧
      Registry.build urlSchema {} "URL" = .ok r ∧ c ∈ r.classes ∧
      classUnit { rootClassName := some "URL" } c ∈ units ∧
      c.schemaId = "URL" ∧ c.name = "Url" := by
  have hnoted : (urlSchema.classSources "URL").map (urlSchema.scope {}).noted = [_] :=
    congrArg (fun n => [n]) (Scope.noted_singleSource (Scope.propertyShape_integer rfl))
  have hbuild : Registry.build urlSchema {} "URL" = .ok _ :=
    Registry.build_of_noted hnoted (List.nodup_singleton _) (by simp)
  have hgenerate : generate urlSchema {} { rootClassName := some "URL" } = .ok _ :=
    generate_eq_ok_iff.2 ⟨_, hbuild, rfl⟩
  obtain ⟨r, c, hr, hc, hunit, rfl, -, hname, -⟩ := generate_root_name rfl rfl hgenerate
  refine ⟨_, r, _, hgenerate, hr, hc, hunit, rfl, hname.trans ?_⟩
  decide +kernel

/-! ## Clashes of names -/

/-- The name of the visitor of a run. -/
def visitorName (settings : Settings) (rootClass : String) : String :=
  settings.visitorClass (settings.schemaName.getD rootClass)

/-- The names of the types that stand beside the classes. -/
def supportNames (settings : Settings) (rootClass : String) : List String :=
  [settings.kindEnumName, settings.nodeInterfaceName] ++
    if settings.generateVisitor then [visitorName settings rootClass] else []

/-- The classes of a model come in the order of its names. -/
theorem Registry.map_name_listed {s : Schema} {hints : HintTable} {rootClass : String}
    {r : Registry} (hr : build s hints rootClass = .ok r) :
    r.listed.map ClassModel.name = r.names := by
  rw [listed_of_build hr, names_of_build hr, classes, List.map_map]
  exact List.map_congr_left (keyed_of_build hr)

theorem units_names (settings : Settings) (rootClass : String) {r : Registry}
    (hr : r.listed.map ClassModel.name = r.names) :
    (unitsOf settings rootClass r).map CompilationUnit.name =
      r.names ++ supportNames settings rootClass := by
  unfold unitsOf supportNames
  dsimp only
  rw [List.map_append, List.map_append, List.map_map, List.append_assoc, ← hr]
  cases settings.generateVisitor <;> rfl

theorem kindEnum_names (settings : Settings) (r : Registry) :
    (kindEnumUnit settings r).decl.members.map Member.name = "None" :: r.names := by
  unfold kindEnumUnit
  dsimp only
  rw [List.map_map]
  exact List.map_id' _

theorem visitor_names (settings : Settings) {r : Registry}
    (hr : r.listed.map ClassModel.name = r.names) (schemaName className : String) :
    (visitorUnit settings r schemaName className).decl.members.map Member.name =
      ["Visit", "VisitActual", "VisitNullChecked"] ++ r.names.map visitMethodName := by
  unfold visitorUnit
  dsimp only
  rw [List.map_append, List.map_map, ← hr, List.map_map]
  rfl

theorem visitMethodName_injective : Function.Injective visitMethodName :=
  fun _ _ h => String.append_right_inj _ |>.1 h

theorem Registry.names_nodup_of_build {s : Schema} {hints : HintTable} {rootClass : String}
    {r : Registry} (hr : build s hints rootClass = .ok r) : r.names.Nodup := by
  rw [names_of_build hr]
  exact nodup_keys_of_build hr

/-- The warnings about the name of a class are the two that are noted for reserved names. -/
theorem collides_iff {w : Warning} :
    "class name collides".toList <+: w.text.toList ↔
      (∃ name, w = .reservedMethodName name) ∨ ∃ name, w = .reservedTypeName name := by
  cases w <;> simp [Warning.text]

/-- A name without a warning is none of the four that are looked for. -/
theorem not_reserved_of_quiet {settings : Settings} {r : Registry}
    (h : ∀ w ∈ reservedNameWarnings settings r, ¬ "class name collides".toList <+: w.text.toList)
    {name : String} (hname : name ∈ r.names) :
    name ≠ "Actual" ∧ name ≠ "NullChecked" ∧ name ≠ settings.kindEnumName ∧
      name ≠ settings.nodeInterfaceName := by
  have hmethod (heq : name = "Actual" ∨ name = "NullChecked") : False := by
    refine h (.reservedMethodName name) ?_ (collides_iff.2 (Or.inl ⟨name, rfl⟩))
    refine List.mem_flatMap.2 ⟨name, hname, List.mem_append_left _ ?_⟩
    rw [if_pos heq]
    exact List.mem_cons_self
  have htype (heq : name = settings.kindEnumName ∨ name = settings.nodeInterfaceName) : False := by
    refine h (.reservedTypeName name) ?_ (collides_iff.2 (Or.inr ⟨name, rfl⟩))
    refine List.mem_flatMap.2 ⟨name, hname, List.mem_append_right _ ?_⟩
    rw [if_pos heq]
    exact List.mem_cons_self
  exact ⟨fun heq => hmethod (Or.inl heq), fun heq => hmethod (Or.inr heq),
    fun heq => htype (Or.inl heq), fun heq => htype (Or.inr heq)⟩

theorem units_names_nodup_iff {settings : Settings} {rootClass : String} {r : Registry}
    (hr : r.listed.map ClassModel.name = r.names) (hnames : r.names.Nodup)
    (hquiet : ∀ name ∈ r.names, name ≠ settings.kindEnumName ∧ name ≠ settings.nodeInterfaceName) :
    ((unitsOf settings rootClass r).map CompilationUnit.name).Nodup ↔
      (supportNames settings rootClass).Nodup ∧
        (settings.generateVisitor = true → visitorName settings rootClass ∉ r.names) := by
  rw [units_names _ _ hr, List.nodup_append']
  have hdisjoint : r.names.Disjoint (supportNames settings rootClass) ↔
      (settings.generateVisitor = true → visitorName settings rootClass ∉ r.names) := by
    rw [List.disjoint_comm, supportNames, List.disjoint_append_left]
    have hsupport : [settings.kindEnumName, settings.nodeInterfaceName].Disjoint r.names := by
      intro name hmem hname
      have := hquiet name hname
      simp_all
    cases settings.generateVisitor with
    | true => simp [hsupport]
    | false => simp [hsupport]
  rw [hdisjoint]
  exact ⟨fun h => h.2, fun h => ⟨hnames, h⟩⟩

theorem visitor_names_nodup_iff {settings : Settings} {schemaName className : String} {r : Registry}
    (hr : r.listed.map ClassModel.name = r.names) (hnames : r.names.Nodup)
    (hquiet : ∀ name ∈ r.names, name ≠ "Actual" ∧ name ≠ "NullChecked") :
    ((visitorUnit settings r schemaName className).decl.members.map Member.name).Nodup ↔
      "" ∉ r.names := by
  rw [visitor_names _ hr, List.nodup_append']
  have hmethods : (r.names.map visitMethodName).Nodup := hnames.map visitMethodName_injective
  -- each of the three methods is the one of a class: of the class without a name, `Actual`, `NullChecked`
  have hdisjoint : ["Visit", "VisitActual", "VisitNullChecked"].Disjoint
      (r.names.map visitMethodName) ↔ "" ∉ r.names := by
    rw [show ["Visit", "VisitActual", "VisitNullChecked"] =
        ["", "Actual", "NullChecked"].map visitMethodName from rfl]
    constructor
    · intro h hempty
      exact h (List.mem_map_of_mem List.mem_cons_self) (List.mem_map_of_mem hempty)
    · intro hempty
      refine List.disjoint_map visitMethodName_injective fun name hmem hname => ?_
      have := hquiet name hname
      simp_all
  rw [hdisjoint]
  exact ⟨fun h => h.2.2, fun h => ⟨by decide, hmethods, h⟩⟩

theorem file_names_nodup_iff (units : List CompilationUnit) :
    (units.map CompilationUnit.fileName).Nodup ↔ (units.map CompilationUnit.name).Nodup := by
  have hinj : Function.Injective fun name : String => name ++ ".cs" :=
    fun _ _ h => (String.append_left_inj _).1 h
  have hmap : units.map CompilationUnit.fileName =
      (units.map CompilationUnit.name).map fun name => name ++ ".cs" := by
    rw [List.map_map]
    rfl
  rw [hmap, List.nodup_map_iff hinj]

/-- **Which names clash without a warning.** Units, and so files, have names of their own unless names
in the settings are the same or a class has the name of the visitor. The values of the enumeration
differ unless a class is called `None`, and the methods of the visitor unless a class has no name. -/
theorem generate_names_nodup_iff {s : Schema} {hints : HintTable} {settings : Settings}
    {units : List CompilationUnit} (h : generate s hints settings = .ok units)
    (hquiet : ∀ w ∈ generateWarnings s hints settings,
      ¬ "class name collides".toList <+: w.text.toList) :
    ∃ r, Registry.build s hints (settings.rootClass s.title) = .ok r ∧
      ((units.map CompilationUnit.name).Nodup ↔
        (supportNames settings (settings.rootClass s.title)).Nodup ∧
          (settings.generateVisitor = true →
            visitorName settings (settings.rootClass s.title) ∉ r.names)) ∧
      ((units.map CompilationUnit.fileName).Nodup ↔ (units.map CompilationUnit.name).Nodup) ∧
      (∃ enum ∈ units, enum = kindEnumUnit settings r ∧
        ((enum.decl.members.map Member.name).Nodup ↔ "None" ∉ r.names)) ∧
      (settings.generateVisitor = true →
        ∃ visitor ∈ units, visitor = visitorUnit settings r
            (settings.schemaName.getD (settings.rootClass s.title))
            (visitorName settings (settings.rootClass s.title)) ∧
          ((visitor.decl.members.map Member.name).Nodup ↔ "" ∉ r.names)) := by
  obtain ⟨r, hr, rfl⟩ := generate_eq_ok_iff.1 h
  have hlisted := Registry.map_name_listed hr
  have hnames := Registry.names_nodup_of_build hr
  have hreserved : ∀ name ∈ r.names, name ≠ "Actual" ∧ name ≠ "NullChecked" ∧
      name ≠ settings.kindEnumName ∧ name ≠ settings.nodeInterfaceName := by
    refine fun name hname => not_reserved_of_quiet (fun w hw => hquiet w ?_) hname
    -- the registry that was built is the one whose names are looked at
    obtain ⟨-, rfl⟩ := Registry.build_eq_ok_iff.1 hr
    exact List.mem_append_right _ hw
  refine ⟨r, hr, ?_, file_names_nodup_iff _, ⟨kindEnumUnit settings r, ?_, rfl, ?_⟩, fun hvisitor =>
    ⟨_, ?_, rfl, ?_⟩⟩
  · exact units_names_nodup_iff hlisted hnames fun name hname => (hreserved name hname).2.2
  · simp [unitsOf]
  · rw [kindEnum_names, List.nodup_cons]
    exact ⟨fun h => h.1, fun h => ⟨h, hnames⟩⟩
  · simp [unitsOf, hvisitor, visitorName]
  · exact visitor_names_nodup_iff hlisted hnames fun name hname =>
      ⟨(hreserved name hname).1, (hreserved name hname).2.1⟩

/-- Without a collision everything that is noted for a source is noted for the model. -/
theorem Scope.warnings_drafted {scope : Scope} {sources : List ClassSource}
    (h : (sources.map scope.nameOf).Nodup) :
    (scope.drafted sources).warnings = (sources.map scope.noted).flatMap Noted.warnings := by
  induction sources using List.reverseRecOn with
  | nil => rfl
  | append_singleton sources source ih =>
    rw [List.map_append, List.map_singleton, List.nodup_append_comm, List.singleton_append,
      List.nodup_cons] at h
    have hfresh : (scope.drafted sources).taken.get? (scope.nameOf source) = none := by
      rw [get?_taken, claimant?_eq_none_iff.2 h.1]
      rfl
    rw [drafted_concat, ModelDraft.add_of_fresh hfresh, List.map_append, List.flatMap_append, ← ih h.2]
    simp only [List.map_singleton, List.flatMap_singleton]
    rfl

/-- Two classes, which `clashingHints` give the name of the visitor and that of the first value of the
enumeration. -/
def clashingSchema : Schema := {
  definitions := [
    ("walker", (singleSource "walker" "size" { type := some (.one .integer) }).schema),
    ("nothing", (singleSource "nothing" "size" { type := some (.one .integer) }).schema)] }

def clashingHints : HintTable :=
  ⟨[("walker", [.className "RootRewritingVisitor"]), ("nothing", [.className "None"])]⟩

/-- Nothing is warned about, and yet two units and two values have the same name. -/
theorem generate_names_nodup_iff_clashing :
    ∃ units, generate clashingSchema clashingHints {} = .ok units ∧
      (∀ w ∈ generateWarnings clashingSchema clashingHints {},
        ¬ "class name collides".toList <+: w.text.toList) ∧
      ¬ (units.map CompilationUnit.name).Nodup ∧ ¬ (units.map CompilationUnit.fileName).Nodup ∧
      ∃ enum ∈ units, enum.decl.kind = .enumType ∧ ¬ (enum.decl.members.map Member.name).Nodup := by
  have hnoted : (clashingSchema.classSources "Root").map (clashingSchema.scope clashingHints).noted =
      [_, _] :=
    congrArg₂ (fun m n => [m, n]) (Scope.noted_singleSource (Scope.propertyShape_integer rfl))
      (Scope.noted_singleSource (Scope.propertyShape_integer rfl))
  have hbuild : Registry.build clashingSchema clashingHints "Root" = .ok _ :=
    Registry.build_of_noted hnoted (by decide) (by simp)
  have hgenerate : generate clashingSchema clashingHints {} = .ok _ :=
    generate_eq_ok_iff.2 ⟨_, hbuild, rfl⟩
  have hquiet : ∀ w ∈ generateWarnings clashingSchema clashingHints {},
      ¬ "class name collides".toList <+: w.text.toList := by
    have hdraft : (ModelDraft.ofSchema clashingSchema clashingHints "Root").warnings = [] := by
      refine (Scope.warnings_drafted (Registry.perm_classes_of_build hbuild).1).trans ?_
      rw [hnoted]
      rfl
    have hregistry : (ModelDraft.ofSchema clashingSchema clashingHints "Root").registry = _ :=
      (Registry.build_eq_ok_iff.1 hbuild).2
    rw [generateWarnings, show ({} : Settings).rootClass clashingSchema.title = "Root" from rfl,
      hdraft, hregistry]
    decide
  obtain ⟨r, hr, hunits, hfiles, ⟨enum, henum, rfl, hvalues⟩, -⟩ :=
    generate_names_nodup_iff hgenerate hquiet
  obtain rfl := Except.ok.inj (hbuild.symm.trans hr)
  have hclash : ¬ (List.map CompilationUnit.name _).Nodup := fun hnodup =>
    absurd ((hunits.1 hnodup).2 rfl) (by decide)
  exact ⟨_, hgenerate, hquiet, hclash, fun hnodup => hclash (hfiles.1 hnodup), _, henum, rfl,
    fun hnodup => absurd (hvalues.1 hnodup) (by decide)⟩

end Classwright
