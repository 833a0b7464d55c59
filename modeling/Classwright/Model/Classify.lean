import Classwright.Hint.Basic
import Classwright.Model.Basic
import Classwright.Schema.Basic
import Classwright.Text.Words
import Classwright.Warning

/-!
# Classification

The shape of a property is read off its schema. A reference to a definition that is a class gives
that class; a reference to any other definition stands for the definition itself, which is expanded
in its place. Definitions that are being expanded are remembered, so an alias that comes back to
itself ends as an untyped value: each expansion leaves one definition fewer to expand, and every
other step goes to a smaller schema.
-/

namespace Classwright

/-- A fault of a schema as a whole. -/
inductive ModelFault where
  /-- A reference that does not name a definition. -/
  | reference (schemaId property fragment : String)
  /-- Two schemas that give classes of the same name. -/
  | collision (className first second : String)
deriving DecidableEq, Repr

/-- The wording of a fault. -/
def ModelFault.message : ModelFault → String
  | reference schemaId property fragment =>
    schemaId ++ "." ++ property ++
      ": only '#/definitions/<name>' references are supported, found '" ++ fragment ++ "'"
  | collision className first second =>
    "'" ++ first ++ "' and '" ++ second ++ "' both generate class '" ++ className ++
      "'; rename one with a ClassNameHint"

/-- The wording of all faults of a schema. -/
def ModelFault.report (faults : List ModelFault) : String :=
  toString faults.length ++ " error(s) in schema:" ++
    String.join (faults.map fun f => "\n  " ++ f.message)

/-- What a reference to a definition starts with. -/
def definitionRoot : List Char := "#/definitions/".toList

/-- The definition that a reference names: what follows the root, if it is one nonempty segment. -/
def definitionName? (reference : String) : Option String :=
  let s := reference.toList
  let name := s.drop definitionRoot.length
  if definitionRoot.isPrefixOf s ∧ name ≠ [] ∧ '/' ∉ name then some (String.ofList name) else none

/-- The name of the class of a definition: a hint decides, else the name in camel case. -/
def HintTable.classNameFor (hints : HintTable) (definition : String) : String :=
  (hints.className? definition).getD (Text.upperCamel definition)

/-- A result with the faults and warnings met on the way to it. -/
structure Noted (α : Type) where
  value : α
  faults : List ModelFault := []
  warnings : List Warning := []
deriving Repr

/-- Changes the result and keeps the rest. -/
def Noted.map {α β : Type} (f : α → β) (x : Noted α) : Noted β :=
  ⟨f x.value, x.faults, x.warnings⟩

/-- What classification looks things up in. -/
structure Scope where
  definitions : Fields Schema
  hints : HintTable

/-- The property whose shape is sought. -/
structure Site where
  schemaId : String
  property : String

namespace Scope

/-- The class of a definition, if the definition is a class. -/
def className? (scope : Scope) (definition : String) : Option String :=
  match scope.definitions.get? definition with
  | some s => if s.isClass then some (scope.hints.classNameFor definition) else none
  | none => none

/-- The number of definitions that are not being expanded. -/
def unexpanded (scope : Scope) (expanding : List String) : Nat :=
  scope.definitions.countP fun d => !expanding.contains d.1

end Scope

/-- The type of a schema: the type it names, else the one its other keywords imply. -/
def Schema.effectiveType (s : Schema) : Option SchemaType :=
  match s.safeType with
  | some t => some t
  | none =>
    if s.items.isSome then some .array
    else if !s.properties.isEmpty || s.additionalProperties.isSome then some .object
    else none

/-- The primitive of a string with a format. -/
def formatPrimitive : Option String → Primitive
  | some "uri" => .uri
  | some "uri-reference" => .uri
  | some "date-time" => .dateTime
  | _ => .string

theorem Schema.sizeOf_items_lt {s t : Schema} (h : s.items = some t) : sizeOf t < sizeOf s := by
  cases s
  cases h
  simp only [Schema.mk.sizeOf_spec, Option.some.sizeOf_spec]
  omega

theorem Schema.sizeOf_additional_lt {s t : Schema}
    (h : s.additionalProperties = some (.schema t)) : sizeOf t < sizeOf s := by
  cases s
  cases h
  simp only [Schema.mk.sizeOf_spec, Option.some.sizeOf_spec, Additional.schema.sizeOf_spec]
  omega

/-- Counting with a stronger test misses an element that only the weaker one accepts. -/
theorem countP_lt_countP {α : Type} {p q : α → Bool} {l : List α} {a : α}
    (hpq : ∀ x, p x = true → q x = true) (ha : a ∈ l) (hp : p a = false) (hq : q a = true) :
    l.countP p < l.countP q := by
  induction l with
  | nil => cases ha
  | cons b l ih =>
    have hle : l.countP p ≤ l.countP q := List.countP_mono_left fun x _ => hpq x
    simp only [List.countP_cons]
    rcases List.mem_cons.1 ha with rfl | ha
    · simp only [hp, hq, Bool.false_eq_true, if_false, if_true]
      omega
    · have hlt := ih ha
      by_cases hb : p b = true
      · simp only [hb, hpq b hb, if_true]
        omega
      · simp only [hb, Bool.false_eq_true, if_false]
        omega

theorem Scope.unexpanded_lt {scope : Scope} {expanding : List String} {name : String} {s : Schema}
    (hs : scope.definitions.get? name = some s) (he : ¬ expanding.contains name = true) :
    scope.unexpanded (name :: expanding) < scope.unexpanded expanding := by
  refine countP_lt_countP (fun d hd => ?_) (Fields.mem_of_get? hs) ?_ ?_
  · simp only [List.contains_cons, Bool.not_or, Bool.and_eq_true] at hd
    exact hd.2
  · simp
  · simpa using he

-- The hypotheses named in the matches serve the termination proofs only.
set_option linter.unusedVariables false in
mutual

/-- The shape of a schema. -/
def Scope.classify (scope : Scope) (site : Site) (expanding : List String) (s : Schema) :
    Noted Shape :=
  match s.reference with
  | some fragment => scope.resolve site expanding fragment
  | none =>
    match s.effectiveType with
    | some .array =>
      match h : s.items with
      | some items => (scope.classify site expanding items).map .array
      | none => ⟨.array .untyped, [], []⟩
    | some .object =>
      if !s.properties.isEmpty then
        ⟨.map .untyped, [], [.inlineObject site.schemaId site.property]⟩
      else
        match h : s.additionalProperties with
        | some (.schema value) => (scope.classify site expanding value).map .map
        | _ => ⟨.map .untyped, [], []⟩
    | some .string => ⟨.scalar (formatPrimitive s.format), [], []⟩
    | some .integer => ⟨.scalar .integer, [], []⟩
    | some .number => ⟨.scalar .number, [], []⟩
    | some .boolean => ⟨.scalar .boolean, [], []⟩
    | some .null | none => ⟨.untyped, [], []⟩
termination_by (scope.unexpanded expanding, sizeOf s + 1)
decreasing_by
  · exact Prod.Lex.right _ (Nat.succ_pos _)
  · exact Prod.Lex.right _ (Nat.succ_lt_succ (Schema.sizeOf_items_lt h))
  · exact Prod.Lex.right _ (Nat.succ_lt_succ (Schema.sizeOf_additional_lt h))

/-- The shape that a reference stands for. -/
def Scope.resolve (scope : Scope) (site : Site) (expanding : List String) (fragment : String) :
    Noted Shape :=
  match definitionName? fragment with
  | none => ⟨.untyped, [.reference site.schemaId site.property fragment], []⟩
  | some definition =>
    match scope.className? definition with
    | some name => ⟨.ofClass name, [], []⟩
    | none =>
      match h : scope.definitions.get? definition with
      | none =>
        ⟨.ofClass (scope.hints.classNameFor definition), [],
          [.unknownDefinition site.schemaId site.property definition]⟩
      | some target =>
        if he : expanding.contains definition then
          ⟨.untyped, [], [.cyclicAlias site.schemaId site.property definition]⟩
        else scope.classify site (definition :: expanding) target
termination_by (scope.unexpanded expanding, 0)
decreasing_by exact Prod.Lex.left _ _ (Scope.unexpanded_lt h he)

end

/-- The shape that a value type of a hint stands for: a primitive, or the class of that name. -/
def Scope.keywordShape (scope : Scope) (keyword : String) : Shape :=
  match Primitive.ofKeyword? keyword with
  | some p => .scalar p
  | none => .ofClass ((scope.className? keyword).getD (scope.hints.classNameFor keyword))

/-- The shape of a property. A hint can make it a map, whatever its schema says. -/
def Scope.propertyShape (scope : Scope) (site : Site) (s : Schema) : Noted Shape :=
  match scope.hints.dictionary? site.schemaId site.property with
  | none => scope.classify site [] s
  | some (some keyword) => ⟨.map (scope.keywordShape keyword), [], []⟩
  | some none =>
    match s.additionalProperties with
    | some (.schema value) => (scope.classify site [] value).map .map
    | _ => ⟨.map .untyped, [], []⟩

end Classwright
