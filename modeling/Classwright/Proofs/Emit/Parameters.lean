import Classwright.Proofs.Emit.Copy
import Classwright.Proofs.Instance.Closed
import Classwright.Proofs.Model.Locality
import Classwright.Proofs.Text.CapitalWords

/-!
# Parameters of constructors

The constructor for all properties and `Init` have one parameter for each property, and `Init` assigns to
the properties by their bare names. Two things can go wrong. Parameters clash: `AB` and `Ab` both have the
parameter `ab`. Or a parameter captures a property: letters without case stay as they are, so `名 = 名;`
assigns the parameter to itself, and the property keeps what it had.

* **`Stmt.targetsAll`** — the names that statements assign to, and **`targetsAll_init`** those of `Init`.
* **`parameterName_eq_iff`** — parameters clash where names get one lowercase form.
* **`ne_parameterName`** — a name that starts with one of `A` to `Z` is not captured.
* **`copyNames_of_regular`** — names made of capital words neither clash nor are captured.
* **`yields_constructFull`** — where nothing goes wrong, every property gets a copy of its own argument.
-/

namespace Classwright

open Code Emit

/-! ## What statements assign to -/

namespace Code

mutual

/-- The names that a statement assigns to, at any depth. -/
def Stmt.targets : Stmt → List String
  | .assign (.ident name) _ => [name]
  | .ifElse _ yes no => Stmt.targetsAll yes ++ Stmt.targetsAll no
  | .forBelow _ _ body => Stmt.targetsAll body
  | .forEach _ _ _ body => Stmt.targetsAll body
  | .switch _ cases otherwise => Stmt.targetsCases cases ++ Stmt.targetsAll otherwise
  | .unchecked body => Stmt.targetsAll body
  | .assign .. | .expr _ | .declare .. | .ret _ | .raise _ => []

/-- The names that statements assign to. -/
def Stmt.targetsAll : List Stmt → List String
  | [] => []
  | stmt :: rest => stmt.targets ++ Stmt.targetsAll rest

/-- The names that the cases of a switch assign to. -/
def Stmt.targetsCases : List (Expr × List Stmt) → List String
  | [] => []
  | (_, body) :: rest => Stmt.targetsAll body ++ Stmt.targetsCases rest

end

theorem Stmt.targetsAll_append (xs ys : List Stmt) :
    Stmt.targetsAll (xs ++ ys) = Stmt.targetsAll xs ++ Stmt.targetsAll ys := by
  induction xs with
  | nil => rfl
  | cons x xs ih => rw [List.cons_append, targetsAll, targetsAll, ih, List.append_assoc]

end Code

namespace Emit

open Machine (guardedCopy rebuiltCopy)

theorem targetsAll_guardedCopy (source : Expr) (keepNull : Bool) (sink : Expr → Stmt)
    (copied : List Stmt) : Stmt.targetsAll (guardedCopy source keepNull sink copied) =
      (if keepNull then (sink .null).targets else []) ++ Stmt.targetsAll copied := by
  cases keepNull <;> simp [guardedCopy, Stmt.ifThen, Stmt.targetsAll, Stmt.targets]

theorem targetsAll_rebuiltCopy (type : TypeRef) (source : Expr) (level : Nat) (sink : Expr → Stmt)
    (body : List Stmt) : Stmt.targetsAll (rebuiltCopy type source level sink body) =
      Stmt.targetsAll body ++ (sink (.ident (numbered "destination" level))).targets := by
  simp [rebuiltCopy, Stmt.var, Stmt.targetsAll, Stmt.targets]

/-- What is assigned to while elements are copied, if a copy assigns to nothing else. -/
theorem targetsAll_copyElements {put : Expr → Stmt} {item source : Expr} {element : Shape}
    {level : Nat} {keepNull : Bool} {sink : Expr → Stmt} {names : List String} (type : TypeRef)
    (hbody : Stmt.targetsAll (copyStatements item element (level + 1) true put) = [])
    (hsink : ∀ e, (sink e).targets = names) :
    Stmt.targetsAll (guardedCopy source keepNull sink (rebuiltCopy type source level sink
      (copyStatements item element (level + 1) true put))) =
        (if keepNull then names else []) ++ names := by
  rw [targetsAll_guardedCopy, targetsAll_rebuiltCopy, hbody, hsink, hsink, List.nil_append]

/-- **What a copy assigns to** is what its sink assigns to, once, or twice where a `null` is handed on. -/
theorem targetsAll_copyStatements (sink : Expr → Stmt) {names : List String}
    (hsink : ∀ e, (sink e).targets = names) (source : Expr) (shape : Shape) (level : Nat)
    (keepNull : Bool) : Stmt.targetsAll (copyStatements source shape level keepNull sink) =
      (if keepNull && shape.kind != .scalar then names else []) ++ names := by
  induction shape generalizing source level keepNull sink names with
  | scalar p => simp [copyStatements, Stmt.targetsAll, hsink, Shape.kind]
  | ofClass name =>
    refine (targetsAll_guardedCopy source keepNull sink [sink (.new (.named name) [source])]).trans ?_
    simp [Stmt.targetsAll, hsink, Shape.kind]
  | array element ih =>
    -- the elements are added by a call
    have hbody := ih (fun e => .expr (.call (.member (.ident (numbered "destination" level)) "Add") [e]))
      (fun _ => rfl) (.ident (numbered "value" level)) (level + 1) true
    rw [ite_self, List.nil_append] at hbody
    refine (targetsAll_copyElements (concreteType (.array element)) hbody hsink).trans ?_
    simp [Shape.kind]
  | map element ih =>
    -- and here they are assigned to an index, which is no name
    have hbody := ih (fun e => .assign (.index (.ident (numbered "destination" level))
      (.member (.ident (numbered "value" level)) "Key")) e) (fun _ => rfl)
      (.member (.ident (numbered "value" level)) "Value") (level + 1) true
    rw [ite_self, List.nil_append] at hbody
    refine (targetsAll_copyElements (concreteType (.map element)) hbody hsink).trans ?_
    simp [Shape.kind]

/-- **`Init` assigns to every property once.** -/
theorem targetsAll_init (c : ClassModel) :
    Stmt.targetsAll ((initMethod c).body.getD []) = c.properties.map Property.name := by
  show Stmt.targetsAll (c.properties.flatMap fun p => _) = _
  induction c.properties with
  | nil => rfl
  | cons p rest ih =>
    have hfirst := targetsAll_copyStatements (fun value => .assign (.ident p.name) value)
      (fun _ => rfl) (.ident (parameterName p.name)) p.shape 0 false
    rw [List.flatMap_cons, Stmt.targetsAll_append, hfirst, ih]
    rfl

/-! ## Names of parameters -/

theorem parameterName_eq_append (name : String) :
    parameterName name =
      (if reservedWords.contains (Text.lowerCamel name) then "@" else "") ++ Text.lowerCamel name := by
  unfold parameterName
  dsimp only
  split
  · rfl
  · exact String.empty_append.symm

/-- The mark of a reserved word is no part of another name. -/
theorem at_append_ne_lowerCamel (word name : String) : "@" ++ word ≠ Text.lowerCamel name := by
  intro h
  refine Text.isMark_at.not_mem_lowerCamel name ?_
  rw [← h, String.toList_append]
  exact List.mem_append_left _ (by decide)

/-- **Parameters clash** where the names of properties have one lowercase form. -/
theorem parameterName_eq_iff {a b : String} :
    parameterName a = parameterName b ↔ Text.lowerCamel a = Text.lowerCamel b := by
  constructor
  · intro h
    unfold parameterName at h
    dsimp only at h
    split at h
    · split at h
      · exact String.append_right_inj _ |>.1 h
      · exact absurd h (at_append_ne_lowerCamel _ _)
    · split at h
      · exact absurd h.symm (at_append_ne_lowerCamel _ _)
      · exact h
  · intro h
    rw [parameterName_eq_append, parameterName_eq_append, h]

/-- **A name that starts with one of `A` to `Z` is captured by no parameter.** -/
theorem ne_parameterName {name : String} {c : Char} (hc : c ∈ Text.basicCapitals)
    (hname : name.toList.head? = some c) (other : String) : name ≠ parameterName other := by
  rintro rfl
  unfold parameterName at hname
  dsimp only at hname
  split at hname
  · rw [String.toList_append, List.head?_append] at hname
    cases hname
    revert hc
    decide
  · exact Text.head?_lowerCamel_ne hc other hname

end Emit

namespace Machine

/-- When the parameters of a class are distinct. -/
theorem nodup_propertyParams_iff {c : ClassModel} (hnames : (c.properties.map Property.name).Nodup) :
    ((propertyParams c).map Param.name).Nodup ↔ ∀ p ∈ c.properties, ∀ q ∈ c.properties,
      Text.lowerCamel p.name = Text.lowerCamel q.name → p.name = q.name := by
  rw [names_propertyParams, List.nodup_map_iff_inj_on hnames]
  simp only [List.forall_mem_map, parameterName_eq_iff]

theorem mem_propertyParams_iff {c : ClassModel} {name : String} :
    name ∈ (propertyParams c).map Param.name ↔ ∃ q ∈ c.properties, name = parameterName q.name := by
  rw [names_propertyParams, List.map_map, List.mem_map]
  exact exists_congr fun q => and_congr_right fun _ => eq_comm

/-- **Names made of capital words** neither clash nor are captured. -/
theorem parameterNames_of_regular {c : ClassModel} (hnames : (c.properties.map Property.name).Nodup)
    (h : ∀ p ∈ c.properties, Text.Regular p.name) : ParameterNames c where
  distinct := (nodup_propertyParams_iff hnames).2 fun p hp q hq heq =>
    (h p hp).eq_of_lowerCamel_eq (h q hq) heq
  separate p hp hmem := by
    obtain ⟨q, hq, heq⟩ := mem_propertyParams_iff.1 hmem
    obtain ⟨c, -, tail, hname, -, -, hcapital⟩ := (h p hp).exists_toList
    obtain ⟨e, d, tail', -, hlower, hpaired, -⟩ := (h q hq).exists_toList
    have hstart : (parameterName q.name).toList = c :: tail := heq ▸ hname
    unfold parameterName at hstart
    dsimp only at hstart
    -- the parameter starts with a mark or a lowercase letter, and the property with a capital
    split at hstart
    · rw [String.toList_append] at hstart
      cases hstart
      revert hcapital
      decide +kernel
    · rw [hlower] at hstart
      cases hstart
      rw [hpaired.notCapital] at hcapital
      cases hcapital

/-- Nor do they get lost in a local: `Init` copies arrays and maps in one with a small first letter. -/
theorem copyNames_of_regular {c : ClassModel} (hnames : (c.properties.map Property.name).Nodup)
    (h : ∀ p ∈ c.properties, Text.Regular p.name) : CopyNames c where
  toParameterNames := parameterNames_of_regular hnames h
  locals p hp hmem := by
    obtain ⟨first, -, tail, hname, -, -, hcapital⟩ := (h p hp).exists_toList
    rw [eq_of_mem_copyLocals hmem, toList_numbered] at hname
    cases hname
    revert hcapital
    decide +kernel

/-! ## What the properties get -/

/-- A new object of a class, made by the constructor for all properties. -/
def constructFull (c : ClassModel) (arguments : List Value) : Run Value := do
  let new ← allocate (.instanceOf c.name (assigned c []))
  let _ ← invoke new (constructorMethod (fullConstructor c)) arguments
  return new

variable {prog : Program} {c : ClassModel} {value : Property → Value} {tree : Property → Json}

/-- The locals of a method with one parameter for each property. -/
def argumentLocals (c : ClassModel) (value : Property → Value) : Fields Value :=
  c.properties.map fun p => (parameterName p.name, value p)

/-- The constructor hands its arguments to `Init`. -/
theorem yields_fullConstructor {this : Nat} {properties : Fields Value} {s : State} {heap : Heap}
    (hc : prog.registry.get? c.name = some c) (hn : ((propertyParams c).map Param.name).Nodup)
    (ho : s.heap.object? this = some (.instanceOf c.name properties))
    (hinit : Yields prog (invoke (.ref this) (initMethod c) (c.properties.map value))
      { s with locals := argumentLocals c value } .null ⟨heap, argumentLocals c value⟩) :
    Yields prog (invoke (.ref this) (constructorMethod (fullConstructor c)) (c.properties.map value)) s
      .null { s with heap } := by
  let u : State := { s with locals := argumentLocals c value }
  have hlocals : ((propertyParams c).map Param.name).zip (c.properties.map value) = u.locals := by
    rw [propertyParams, List.map_map, List.zip_map']
    rfl
  have hkeys : (Fields.keys u.locals).Nodup := by
    rw [propertyParams, List.map_map] at hn
    rw [Fields.keys, show u.locals = argumentLocals c value from rfl, argumentLocals, List.map_map]
    exact hn
  have hvalues : Yields prog (evaluateAll (.ref this) (c.properties.map fun p =>
      .ident (parameterName p.name))) u (c.properties.map value) u :=
    yields_evaluateAll_map fun p hp => .localOf (Fields.get?_of_mem hkeys (List.mem_map.2 ⟨p, hp, rfl⟩))
  have hrun := yields_initCall (s := u) hc ho hvalues hinit
  have hbody : (constructorMethod (fullConstructor c)).body =
      some [initCall (c.properties.map fun p => .ident (parameterName p.name))] := by
    rw [show (constructorMethod (fullConstructor c)).body =
      some [initCall ((propertyParams c).map fun p => .ident p.name)] from rfl, propertyParams,
      List.map_map]
    rfl
  refine yields_invokeTo hbody (t := { u with heap }) ?_ (Or.inr ⟨rfl, rfl⟩)
  show Executes prog _ { s with locals := ((propertyParams c).map Param.name).zip _ } _ _ _
  rw [hlocals]
  exact .single hrun

/-- **Every property gets a copy of its own argument**, if the names in `Init` are in order. -/
theorem yields_constructFull {s : State} (hc : prog.registry.get? c.name = some c)
    (hkeys : c.DistinctKeys) (hn : CopyNames c)
    (h : ∀ p ∈ c.properties, CopyRefines prog s.heap p.shape (value p) (tree p)) :
    ∃ ext properties, Yields prog (constructFull c (c.properties.map value)) s (.ref s.heap.length)
        (s.grow ext) ∧
      (s.heap ++ ext).object? s.heap.length = some (.instanceOf c.name properties) ∧
      ∀ p ∈ c.properties, ∃ w, properties.get? p.name = some w ∧
        Denotes prog.registry (s.heap ++ ext) p.shape w (prog.registry.copyOf (tree p) p.shape) := by
  let new : State := s.grow [⟨.instanceOf c.name (assigned c []), 0⟩]
  -- the arguments are the parts of one tree
  have hparts (p) (hp : p ∈ c.properties) : CopyRefines prog s.heap p.shape (value p)
      ((Json.object (c.shown tree)).part p.jsonName) := by
    rw [ClassModel.part_shown hkeys hp]
    exact h p hp
  obtain ⟨heap, parts, hmap, hfilled, hinit⟩ := yields_init
    (s := { new with locals := argumentLocals c value }) hn (List.prefix_refl _) hparts rfl
  obtain ⟨ext, rfl⟩ := hfilled.before
  have hrun := yields_fullConstructor (s := new) hc hn.distinct (Heap.object?_append_singleton _ _) hinit
  refine ⟨ext, _, ?_, hfilled.object, fun p hp => ?_⟩
  · exact Yields.bind (yields_allocate _) (Yields.bind hrun (Yields.result _ _))
  · rw [← hmap] at hp
    obtain ⟨q, hq, rfl⟩ := List.mem_map.1 hp
    have howns := (hfilled.row.owns _ (List.mem_map.2 ⟨q, hq, rfl⟩)).denotes (by decide)
    rw [hfilled.shapes q hq, hfilled.trees q hq, ClassModel.part_shown hkeys (hmap ▸ hp)] at howns
    exact ⟨q.2.value, get?_assigned (nodup_held hn.nodup hmap) (List.mem_map.2 ⟨q, hq, rfl⟩), howns⟩

/-- **Which parameters clash, which capture, and what the properties get.** For a class of a registry
that was built from a schema, with distinct names of properties:

* `Init` has the parameters of the constructor for all properties and assigns to every property once;
* the parameters are distinct exactly if no two names have one lowercase form;
* no property is captured exactly if none is named like a parameter, and none that starts with one of
  `A` to `Z` ever is;
* nothing goes wrong with names that are made of capital words;
* where the names are in order, for all classes that the values lead to, the constructor ends with a new
  object in which every property has a copy of its own argument. -/
theorem fullConstructor_parameters {schema : Schema} {hints : HintTable} {rootClass : String}
    {r : Registry} {c : ClassModel} (hbuild : Registry.build schema hints rootClass = .ok r)
    (hc : c ∈ r.classes) (hnames : (c.properties.map Property.name).Nodup) :
    (initMethod c).params = (fullConstructor c).params ∧
    Stmt.targetsAll ((initMethod c).body.getD []) = c.properties.map Property.name ∧
    (((fullConstructor c).params.map Param.name).Nodup ↔ ∀ p ∈ c.properties, ∀ q ∈ c.properties,
      Text.lowerCamel p.name = Text.lowerCamel q.name → p.name = q.name) ∧
    ((∀ target ∈ Stmt.targetsAll ((initMethod c).body.getD []),
        target ∉ (initMethod c).params.map Param.name) ↔
      ∀ p ∈ c.properties, ∀ q ∈ c.properties, p.name ≠ parameterName q.name) ∧
    (∀ p ∈ c.properties, ∀ letter ∈ Text.basicCapitals, p.name.toList.head? = some letter →
      p.name ∉ (initMethod c).params.map Param.name) ∧
    ((∀ p ∈ c.properties, Text.Regular p.name) → CopyNames c) ∧
    ((∀ d, r.Reaches (.ofClass c.name) d → CopyNames d) →
      ∀ (s : State) (value : Property → Value) (tree : Property → Json),
        (∀ p ∈ c.properties, Denotes r s.heap p.shape (value p) (tree p)) →
        ∃ ext properties, Yields r (constructFull c (c.properties.map value)) s
            (.ref s.heap.length) (s.grow ext) ∧
          (s.heap ++ ext).object? s.heap.length = some (.instanceOf c.name properties) ∧
          ∀ p ∈ c.properties, ∃ w copy, properties.get? p.name = some w ∧
            r.copyValue (tree p) p.shape = .ok copy ∧ Denotes r (s.heap ++ ext) p.shape w copy) := by
  have hget := Registry.get?_of_build hbuild hc
  refine ⟨rfl, targetsAll_init c, nodup_propertyParams_iff hnames, ?_, ?_,
    copyNames_of_regular hnames, ?_⟩
  · rw [targetsAll_init, List.forall_mem_map]
    refine forall₂_congr fun p hp => ?_
    show p.name ∉ (propertyParams c).map Param.name ↔ _
    rw [mem_propertyParams_iff, not_exists]
    exact forall_congr' fun q => not_and
  · intro p hp letter hletter hstart hmem
    obtain ⟨q, -, heq⟩ := mem_propertyParams_iff.1 hmem
    exact ne_parameterName hletter hstart q.name heq
  · intro hreached s value tree hvalues
    have hkeys (d) (hd : r.Reaches (.ofClass c.name) d) : d.DistinctKeys ∧ CopyNames d :=
      ⟨Registry.distinctKeys_of_nodup_names hbuild d hd.mem (hreached d hd).nodup, hreached d hd⟩
    obtain ⟨hdistinct, hn⟩ := hkeys c (.here rfl hget)
    have hrefines (p) (hp : p ∈ c.properties) : CopyRefines r s.heap p.shape (value p) (tree p) :=
      (hvalues p hp).copyRefines fun d hd => hkeys d (.there rfl hget hp hd)
    obtain ⟨ext, properties, hrun, hobject, hproperties⟩ :=
      yields_constructFull hget hdistinct hn hrefines
    refine ⟨ext, properties, hrun, hobject, fun p hp => ?_⟩
    obtain ⟨w, hw, hdenotes⟩ := hproperties p hp
    exact ⟨w, _, hw, (hrefines p hp).copies, hdenotes⟩

end Machine

/-- A root class with parameters that clash, and one that captures its property. -/
def namesakeSchema : Schema := {
  properties := [
    ("a_b", { type := some (.one .integer) }),
    ("ab", { type := some (.one .integer) }),
    ("名", { type := some (.one .integer) })] }

/-- The class of `namesakeSchema`. -/
def namesakeClass : ClassModel where
  schemaId := "Root"
  name := "Root"
  description := none
  baseTypes := []
  properties := [
    Registry.trees.property "a_b" "AB" (.scalar .integer),
    Registry.trees.property "ab" "Ab" (.scalar .integer),
    Registry.trees.property "名" "名" (.scalar .integer)]

theorem build_namesakeSchema :
    Registry.build namesakeSchema {} "Root" = .ok (.ofClasses [namesakeClass]) := by
  have hshape (jsonName : String) : (namesakeSchema.scope {}).propertyShape ⟨"Root", jsonName⟩
      { type := some (.one .integer) } = { value := .scalar .integer } :=
    Scope.propertyShape_integer rfl
  have hnames : Text.upperCamel "a_b" = "AB" ∧ Text.upperCamel "ab" = "Ab" ∧
      Text.upperCamel "名" = "名" := by
    decide +kernel
  have hnoted : (namesakeSchema.scope {}).noted ⟨"Root", namesakeSchema⟩ =
      { value := namesakeClass } := by
    rw [Scope.noted, Scope.classModel]
    simp only [namesakeSchema, List.map, Scope.property] at hshape ⊢
    simp only [hshape, hnames.1, hnames.2.1, hnames.2.2]
    rfl
  have hsources : (namesakeSchema.classSources "Root").map (namesakeSchema.scope {}).noted =
      [{ value := namesakeClass }] := congrArg (fun n => [n]) hnoted
  exact (Registry.build_of_noted hsources (by decide) (by simp)).trans rfl

namespace Machine

set_option maxRecDepth 4000 in
/-- With the arguments 1, 2 and 3 the first one gets to both properties whose parameters clash, and the
third one to none. -/
theorem run_namesake :
    constructFull namesakeClass [.int 1, .int 2, .int 3]
        (engine (Registry.ofClasses [namesakeClass]) 12) ⟨[], []⟩ =
      .ok (.ref 0, ⟨[⟨.instanceOf "Root" [("AB", .int 1), ("Ab", .int 1),
        ("名", .leaf (.number (.integer 0)))], 2⟩], []⟩) := by
  rfl

theorem fullConstructor_parameters_namesakes :
    (Registry.build namesakeSchema {} "Root" = .ok (.ofClasses [namesakeClass]) ∧
      (namesakeClass.properties.map Property.name).Nodup ∧
      ¬ ((fullConstructor namesakeClass).params.map Param.name).Nodup ∧
      "名" ∈ Stmt.targetsAll ((initMethod namesakeClass).body.getD []) ∧
      "名" ∈ (initMethod namesakeClass).params.map Param.name ∧
      "AB" ∉ (initMethod namesakeClass).params.map Param.name ∧
      constructFull namesakeClass [.int 1, .int 2, .int 3]
          (engine (Registry.ofClasses [namesakeClass]) 12) ⟨[], []⟩ =
        .ok (.ref 0, ⟨[⟨.instanceOf "Root" [("AB", .int 1), ("Ab", .int 1),
          ("名", .leaf (.number (.integer 0)))], 2⟩], []⟩)) ∧
    ∃ c heap value ext properties, c ∈ Registry.trees.classes ∧
      Yields Registry.trees (constructFull c (c.properties.map value)) ⟨heap, []⟩ (.ref heap.length)
        ⟨heap ++ ext, []⟩ ∧
      (heap ++ ext).object? heap.length = some (.instanceOf "Tree" properties) ∧
      ∃ w copy, properties.get? "Below" = some w ∧
        Registry.trees.copyValue (Registry.aTree.part "below") (.array (.ofClass "Tree")) = .ok copy ∧
        Denotes Registry.trees (heap ++ ext) (.array (.ofClass "Tree")) w copy := by
  constructor
  · have hnodup : (namesakeClass.properties.map Property.name).Nodup := by decide
    obtain ⟨-, htargets, hclash, -, hcapital, -, -⟩ :=
      fullConstructor_parameters build_namesakeSchema (List.mem_singleton_self _) hnodup
    have hlower : Text.lowerCamel "AB" = Text.lowerCamel "Ab" := by decide +kernel
    refine ⟨build_namesakeSchema, hnodup, fun hdistinct => ?_, ?_, by decide +kernel, ?_,
      run_namesake⟩
    · have hsame := hclash.1 hdistinct _ List.mem_cons_self _
        (List.mem_cons_of_mem _ List.mem_cons_self) hlower
      exact absurd hsame (by decide)
    · rw [htargets]
      decide
    · exact hcapital _ List.mem_cons_self 'A' (by decide) rfl
  · have hnames (d) (hd : Registry.trees.Reaches (.ofClass "Tree") d) : CopyNames d := by
      cases List.mem_singleton.1 hd.mem
      exact ⟨⟨by decide +kernel, by decide +kernel⟩, by decide +kernel⟩
    have ha : Registry.trees.fits Registry.aTree (.ofClass "Tree") = true := by decide
    obtain ⟨heap, v, hv⟩ := exists_denotes (fun d hd => (hnames d hd).nodup) ha []
    obtain ⟨-, -, -, -, -, -, hrun⟩ :=
      fullConstructor_parameters build_treeSchema (List.mem_singleton_self _) (by decide)
    cases hv with
    | object value hc _ _ hd =>
      cases hc
      obtain ⟨ext, properties, hyields, hobject, hproperties⟩ := hrun hnames ⟨_, []⟩ value _ hd
      obtain ⟨w, copy, hw⟩ := hproperties _ (List.mem_cons_of_mem _ List.mem_cons_self)
      exact ⟨_, _, value, ext, properties, List.mem_singleton_self _, hyields, hobject, w, copy, hw⟩

end Machine

end Classwright
