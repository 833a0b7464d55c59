import Classwright.Proofs.Emit.Lockstep
import Classwright.Proofs.Model.Locality

/-!
# What every model is like

A model that is built at all is well-formed. What is stored beside the classes and beside the shapes
of their properties agrees with them: the classes stand in the order of the stored names and are found
under their own, each comes from one schema with the properties of that schema in order, and what is
stored for a property is said of its shape.

* **`ClassModel.Represents`** — a class comes from a source.
* **`Property.Coherent`** — the kind, the depth and the mark for visits that are stored for a property
  follow from its shape, and so does its comparison unless a hint names a comparer.
* **`Property.WalksInStep`** — no walk from a property asks for the elements of what has none. This holds
  of the three evaluators and of the three generators.
-/

namespace Classwright

/-! ## Properties -/

/-- A shape is as many arrays as its depth says, around a shape that is none. -/
theorem Shape.exists_iterate_array (shape : Shape) :
    ∃ core, core.kind ≠ .array ∧ shape = Nat.iterate .array shape.arrayDepth core := by
  induction shape with
  | array element ih =>
    obtain ⟨core, hcore, helement⟩ := ih
    refine ⟨core, hcore, ?_⟩
    rw [arrayDepth, Function.iterate_succ_apply', ← helement]
  | scalar p => exact ⟨.scalar p, fun h => ShapeKind.noConfusion h, rfl⟩
  | ofClass name => exact ⟨.ofClass name, fun h => ShapeKind.noConfusion h, rfl⟩
  | map element _ => exact ⟨.map element, fun h => ShapeKind.noConfusion h, rfl⟩

theorem Shape.containsClass_iff (shape : Shape) :
    shape.containsClass = true ↔ ∃ name, shape.leaf = .ofClass name := by
  unfold containsClass
  cases shape.leaf <;> simp

/-- What is stored for a property agrees with its shape, given the comparer that a hint names for it. -/
structure Property.Coherent (comparer? : Option String) (p : Property) : Prop where
  kind : p.kind = p.shape.kind
  arrayDepth : ∃ core, core.kind ≠ .array ∧ p.shape = Nat.iterate .array p.arrayDepth core
  isVisitable : p.isVisitable = true ↔ ∃ name, p.shape.leaf = .ofClass name
  comparison : (∃ comparer, comparer? = some comparer ∧ p.comparison = .custom comparer) ∨
    comparer? = none ∧ p.comparison.Lockstep p.shape

theorem Scope.coherent_property (scope : Scope) (schemaId jsonName : String) (owner s : Schema) :
    (scope.property schemaId owner jsonName s).value.Coherent
      (scope.hints.comparer? schemaId jsonName) where
  kind := rfl
  arrayDepth := Shape.exists_iterate_array _
  isVisitable := Shape.containsClass_iff _
  comparison := by
    cases hcomparer : scope.hints.comparer? schemaId jsonName with
    | some comparer => exact .inl ⟨comparer, rfl, by simp only [property, Noted.map, hcomparer]⟩
    | none =>
      refine .inr ⟨rfl, Comparison.lockstep_iff.2 ?_⟩
      simp only [property, Noted.map, hcomparer]

/-- The walks that start with a property are what they are with guards, whatever a guard answers. -/
structure Property.WalksInStep (r : Registry) (p : Property) : Prop where
  equality (refusal : Json → Except InstanceFault Bool) (a : Json) :
    Json.walk (guarded refusal r.equalStep) a p.evaluated p.shape =
      r.equalValues a p.evaluated p.shape
  hash (leaf : LeafHash) (refusal : Int32 → Except InstanceFault Int32) (v : Json) :
    Json.walk (guarded refusal (r.hashStep leaf)) v p.evaluated p.shape =
      r.hashInto leaf v p.evaluated p.shape
  order (refusal : Json → Except InstanceFault Ordering) (a : Json) :
    Json.walk (guarded refusal r.orderStep) a p.evaluated p.shape =
      r.orderValues a p.evaluated p.shape
  equalCode (refusal : List Code.Stmt) (left right : Code.Expr) (level : Nat) :
    Emit.guardedEqual refusal left right p.comparison p.shape level =
      Emit.equalStatements left right p.comparison p.shape level
  hashCode (refusal : List Code.Stmt) (acc : String) (value : Code.Expr) (level : Nat) :
    Emit.guardedHash refusal acc value p.comparison p.shape level =
      Emit.hashStatements acc value p.comparison p.shape level
  orderCode (refusal : List Code.Stmt) (left right : Code.Expr) (level : Nat) :
    Emit.guardedOrder refusal left right p.comparison p.shape level =
      Emit.orderStatements left right p.comparison p.shape level

/-- A coherent property is walked in step, if this holds of what it is evaluated by. -/
theorem Property.Coherent.walksInStep {r : Registry} (he : r.EvaluatesByShape) {p : Property}
    (hp : p.evaluated.Lockstep p.shape) {comparer? : Option String} (h : p.Coherent comparer?) :
    p.WalksInStep r where
  equality refusal a := walk_guarded (Registry.staysInStep_equalStep he) refusal a _ _ hp
  hash leaf refusal v := walk_guarded (Registry.staysInStep_hashStep he leaf) refusal v _ _ hp
  order refusal a := walk_guarded (Registry.staysInStep_orderStep he) refusal a _ _ hp
  -- a comparer is called for the value as a whole, and the order goes on by the shape
  equalCode refusal left right level := by
    obtain ⟨comparer, -, hcustom⟩ | ⟨-, hstep⟩ := h.comparison
    · rw [hcustom]
      rfl
    · exact Emit.guardedEqual_eq hstep refusal left right level
  hashCode refusal acc value level := by
    obtain ⟨comparer, -, hcustom⟩ | ⟨-, hstep⟩ := h.comparison
    · rw [hcustom]
      rfl
    · exact Emit.guardedHash_eq hstep refusal acc value level
  orderCode refusal left right level := by
    obtain ⟨comparer, -, hcustom⟩ | ⟨-, hstep⟩ := h.comparison
    · rw [hcustom]
      exact Emit.guardedOrder_custom comparer refusal left right p.shape level
    · exact Emit.guardedOrder_eq hstep refusal left right level

/-! ## Classes -/

/-- A class has the name of a source, and its properties are those of the source in order. -/
structure ClassModel.Represents (scope : Scope) (source : ClassSource) (c : ClassModel) : Prop where
  schemaId : c.schemaId = source.schemaId
  name : c.name = scope.hints.classNameFor source.schemaId
  properties : List.Forall₂ (fun f p => p.jsonName = f.1 ∧
      p.shape = (scope.propertyShape ⟨source.schemaId, f.1⟩ f.2).value)
    source.schema.properties c.properties

theorem Scope.represents_classOf (scope : Scope) (source : ClassSource) :
    (scope.classOf source).Represents scope source where
  schemaId := rfl
  name := rfl
  properties := by
    rw [classOf, noted, properties_classModel, List.forall₂_map_right_iff, List.forall₂_same]
    exact fun f _ => ⟨rfl, rfl⟩

namespace Registry

variable {s : Schema} {hints : HintTable} {rootClass : String} {r : Registry}

/-- A class is found under its name and there only. -/
theorem get?_eq_some_iff (hr : build s hints rootClass = .ok r) {name : String} {c : ClassModel} :
    r.get? name = some c ↔ c ∈ r.classes ∧ c.name = name := by
  refine ⟨fun h => ⟨mem_of_get? h, (keyed_of_build hr).name_of_get? h⟩, ?_⟩
  rintro ⟨hc, rfl⟩
  exact get?_of_build hr hc

/-- **Every model is well-formed.** The stored names increase and are the keys of the classes, those
under which there are some. Each class is stored and found under its own name, comes from a source with
the properties of its schema in order, and has no two of one name. What is stored for a property follows
from its shape and from the comparer that a hint may name, and no walk from it takes the element of a
shape that is neither a list nor a map. -/
theorem build_well_formed (hs : s.DistinctNames) (hr : build s hints rootClass = .ok r) :
    r.names.Pairwise (· < ·) ∧
    r.names = r.entries.keys ∧
    (∀ name, name ∈ r.names ↔ ∃ c, r.get? name = some c) ∧
    (∀ e ∈ r.entries, e.2.name = e.1) ∧
    (∀ name c, r.get? name = some c ↔ c ∈ r.classes ∧ c.name = name) ∧
    ∀ c ∈ r.classes, c.DistinctKeys ∧
      (∃ source ∈ s.classSources rootClass, c.Represents (s.scope hints) source) ∧
      ∀ p ∈ c.properties,
        p.Coherent (hints.comparer? c.schemaId p.jsonName) ∧ p.WalksInStep r := by
  have hnames := names_of_build hr
  have hevaluated := evaluatesByShape_of_build hr
  refine ⟨hnames ▸ pairwise_keys_of_build hr, hnames, fun name => ?_, keyed_of_build hr,
    fun name c => get?_eq_some_iff hr, fun c hc => ?_⟩
  · rw [hnames]
    exact Fields.mem_keys_iff
  obtain ⟨source, hsource, rfl⟩ := List.mem_map.1 ((perm_classes_of_build hr).2.mem_iff.1 hc)
  refine ⟨distinctKeys_of_build hr hs _ hc,
    ⟨source, hsource, Scope.represents_classOf _ source⟩, fun p hp => ?_⟩
  have hcoherent : p.Coherent (hints.comparer? source.schemaId p.jsonName) := by
    obtain ⟨jsonName, t, rfl⟩ := Scope.exists_of_mem_classModel hp
    exact Scope.coherent_property (s.scope hints) _ _ _ _
  exact ⟨hcoherent, hcoherent.walksInStep hevaluated (hevaluated.lockstep hc hp)⟩

end Registry

/-- Two definitions whose classes stand the other way round in the model. -/
def harvestSchema : Schema := {
  definitions := [
    ("tally", (singleSource "tally" "counts" {
      type := some (.one .array), items := some { type := some (.one .integer) } }).schema),
    ("crate", (singleSource "crate" "size" { type := some (.one .integer) }).schema)] }

def harvestHints : HintTable := ⟨[("crate.size", [.comparer "SizeComparer"])]⟩

/-- The model of `harvestSchema`: the counts are compared one by one, and the sizes by a comparer. -/
def Registry.harvest : Registry := .ofClasses [
  { schemaId := "crate", name := "Crate", description := none, baseTypes := []
    properties := [
      { trees.property "size" "Size" (.scalar .integer) with comparison := .custom "SizeComparer" }] },
  { schemaId := "tally", name := "Tally", description := none, baseTypes := []
    properties := [trees.property "counts" "Counts" (.array (.scalar .integer))] }]

theorem Registry.build_harvestSchema :
    build harvestSchema harvestHints "Root" = .ok harvest := by
  have hcounts : (harvestSchema.scope harvestHints).propertyShape ⟨"tally", "counts"⟩ {
      type := some (.one .array), items := some { type := some (.one .integer) } } =
      { value := .array (.scalar .integer) } := by
    have hfree : (harvestSchema.scope harvestHints).hints.dictionary? "tally" "counts" = none := rfl
    rw [Scope.propertyShape, hfree, Scope.classify]
    simp only [Schema.effectiveType, Schema.safeType]
    rw [Scope.classify]
    rfl
  have hsize : (harvestSchema.scope harvestHints).propertyShape ⟨"crate", "size"⟩
      { type := some (.one .integer) } = { value := .scalar .integer } :=
    Scope.propertyShape_integer rfl
  have hnoted : (harvestSchema.classSources "Root").map (harvestSchema.scope harvestHints).noted = [_, _] :=
    congrArg₂ (fun m n => [m, n]) (Scope.noted_singleSource hcounts) (Scope.noted_singleSource hsize)
  exact build_of_noted hnoted (by decide) (by simp)

theorem Registry.build_well_formed_harvest :
    harvest.names = ["Crate", "Tally"] ∧ harvest.names.Pairwise (· < ·) ∧
      ∀ c ∈ harvest.classes, ∀ p ∈ c.properties,
        p.Coherent (harvestHints.comparer? c.schemaId p.jsonName) ∧ p.WalksInStep harvest := by
  have hdistinct : harvestSchema.DistinctNames := ⟨List.nodup_nil, by decide⟩
  obtain ⟨hsorted, -, -, -, -, hclasses⟩ := build_well_formed hdistinct build_harvestSchema
  exact ⟨rfl, hsorted, fun c hc => (hclasses c hc).2.2⟩

end Classwright
