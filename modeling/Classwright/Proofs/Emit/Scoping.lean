import Classwright.Emit.Hash
import Classwright.Emit.Order
import Classwright.Emit.Visitor
import Classwright.Proofs.Code.Scoping
import Classwright.Proofs.Emit.Copy

/-!
# Scopes of generated locals

Statements that compare, hash, order, visit or copy containers go one level deeper for the elements, and
the locals of a level carry its number. A level uses some names twice, in loops one after another, and the
lookup of a key adds a local to the block around it. No local is hidden all the same, at any depth.

* **`IsLocal`**, **`Free`** — the names for a level and for deeper ones, and what is left of them.
* **`fits_equalStatements`**, **`fits_hashStatements`**, **`fits_orderStatements`**,
  **`fits_visitStatements`**, **`fits_copyStatements`** — by induction on comparisons and shapes: statements
  that start at a level fit wherever the names for it are free.
* **`generated_locals_wellScoped`** — all of them together, in any surroundings.
-/

namespace Classwright

open Code

/-- The comparers that a comparison names. -/
def Comparison.comparers : Comparison → List String
  | .custom comparer => [comparer]
  | .sequence inner | .unordered inner => inner.comparers
  | .value | .structural _ => []

theorem Shape.comparers_comparison (shape : Shape) : shape.comparison.comparers = [] := by
  induction shape with
  | scalar | ofClass => rfl
  | array element ih => exact ih
  | map element ih => exact ih

namespace Emit

/-! ## Names of locals -/

/-- What generated locals are called, up to their level. -/
def localBases : List String :=
  ["index", "left", "right", "entry", "other", "item", "sum", "entry_hash", "left_keys", "right_keys", "key",
    "value", "destination"]

/-- The names of the locals of a level and of deeper ones. -/
def IsLocal (level : Nat) (name : String) : Prop :=
  ∃ base ∈ localBases, ∃ depth, level ≤ depth ∧ name = numbered base depth

/-- The names of the locals of a level and of deeper ones, without some that the level has used. -/
def Free (level : Nat) (taken : List String) (name : String) : Prop :=
  IsLocal level name ∧ name ∉ taken.map (numbered · level)

theorem free_numbered {level : Nat} {base : String} {taken : List String} (hbase : base ∈ localBases)
    (htaken : base ∉ taken) : Free level taken (numbered base level) := by
  refine ⟨⟨base, hbase, level, Nat.le_refl _, rfl⟩, fun hin => ?_⟩
  obtain ⟨other, hother, heq⟩ := List.mem_map.1 hin
  exact htaken ((numbered_inj.1 heq).1 ▸ hother)

/-- What is free one level deeper is free, whatever a level has used. -/
theorem Free.lift {level : Nat} {name : String} (h : Free (level + 1) [] name) (taken : List String) :
    Free level taken name := by
  obtain ⟨base, hbase, depth, hdepth, rfl⟩ := h.1
  refine ⟨⟨base, hbase, depth, by omega, rfl⟩, fun hin => ?_⟩
  obtain ⟨other, hother, heq⟩ := List.mem_map.1 hin
  have hlevel := (numbered_inj.1 heq).2
  omega

theorem not_isLocal_of_plain {level : Nat} {name : String} (h : '_' ∉ name.toList) :
    ¬ IsLocal level name := by
  rintro ⟨base, -, depth, -, rfl⟩
  exact ne_numbered h base depth rfl

/-- Names that are marked with an underscore, as those of all locals are. -/
class Marked (k : Kinds) : Prop where
  mem_of_own : ∀ name, k.own name → '_' ∈ name.toList

/-- The locals of a level and of deeper ones, besides names that an environment declares. -/
def locals (level : Nat) (foreign : String → Prop) : Kinds where
  own := IsLocal level
  foreign name := foreign name ∧ ¬ IsLocal level name
  apart _ h := h.2

instance marked_locals (level : Nat) (foreign : String → Prop) : Marked (locals level foreign) where
  mem_of_own _ hown := Decidable.not_not.1 fun h => not_isLocal_of_plain h hown

section

variable {k : Kinds} {level : Nat} {given taken : List String} {left right : Expr} {base : String}
  {stmts body : List Stmt}

theorem admitted_plain [Marked k] {name : String} (h : '_' ∉ name.toList) :
    (Expr.ident name).Admitted k given :=
  Expr.admitted_ident.2 fun hown => absurd (Marked.mem_of_own name hown) h

theorem admitted_given {name : String} (h : name ∈ given) : (Expr.ident name).Admitted k given :=
  Expr.admitted_ident.2 fun _ => h

/-- The element of a list at the index of the loop. -/
theorem admitted_element {e : Expr} (h : e.Admitted k given) {name : String} :
    (Expr.index e (.ident name)).Admitted k (name :: given) :=
  Expr.admitted_index.2 ⟨h.mono (List.subset_cons_self ..), admitted_given List.mem_cons_self⟩

/-- What fits one level deeper fits, whatever the level has used. -/
theorem fits_deeper (h : Fits k (Free (level + 1) []) given [] stmts) :
    Fits k (Free level taken) given [] stmts :=
  h.mono (fun _ hfree => hfree.lift taken) (List.Subset.refl _)

theorem free_cons {name : String} (h : Free level (base :: taken) name) :
    Free level taken name ∧ name ≠ numbered base level :=
  ⟨⟨h.1, fun hin => h.2 (List.mem_cons_of_mem _ hin)⟩, fun heq => h.2 (heq ▸ List.mem_cons_self)⟩

theorem fits_indexed (hbase : base ∈ localBases) (htaken : base ∉ taken) {bound : Expr}
    (hbound : bound.Admitted k given)
    (hbody : Nests k (Free level (base :: taken)) (numbered base level :: given) body) :
    Fits k (Free level taken) given [] [.forBelow (numbered base level) bound body] :=
  fits_forBelow hbound (free_numbered hbase htaken) hbody fun _ => free_cons

theorem fits_each (hbase : base ∈ localBases) (htaken : base ∉ taken) {type : Option TypeRef} {items : Expr}
    (hitems : items.Admitted k given)
    (hbody : Nests k (Free level (base :: taken)) (numbered base level :: given) body) :
    Fits k (Free level taken) given [] [.forEach (numbered base level) type items body] :=
  fits_forEach hitems (free_numbered hbase htaken) hbody fun _ => free_cons

/-- A block with locals of a level. -/
theorem nests_locals {bases : List String} (hbases : ∀ base ∈ bases, base ∈ localBases ∧ base ∉ taken)
    (h : Fits k (Free level (bases ++ taken)) given (bases.map (numbered · level)) stmts) :
    Nests k (Free level taken) given stmts := by
  refine h.nests (fun name hfree => ?_) fun name hname => ?_
  · have hfree' := hfree.2
    rw [List.map_append, List.mem_append, not_or] at hfree'
    exact ⟨⟨hfree.1, hfree'.2⟩, hfree'.1⟩
  · obtain ⟨base, hbase, rfl⟩ := List.mem_map.1 hname
    exact free_numbered (hbases base hbase).1 (hbases base hbase).2

theorem fits_unlessNull {value : Expr} (hvalue : value.Admitted k given)
    (hbody : Nests k (Free level taken) given body) :
    Fits k (Free level taken) given [] [.ifThen value.isNotNull body] :=
  fits_ifThen (Expr.admitted_binary.2 ⟨hvalue, Expr.admitted_null⟩) hbody

/-! ## Equality -/

theorem fits_leaveIf {reserved : String → Prop} {condition : Expr} (h : condition.Admitted k given) :
    Fits k reserved given [] [leaveIf condition] :=
  fits_ifThen h (fits_ret Expr.admitted_bool).nests_of_nil

theorem admitted_referenceEquals [Marked k] (hleft : left.Admitted k given)
    (hright : right.Admitted k given) : (referenceEquals left right).Admitted k given := by
  simp (disch := decide) [referenceEquals, hleft, hright, admitted_plain]

theorem fits_comparedContainers [Marked k] {loop : Stmt} (hleft : left.Admitted k given)
    (hright : right.Admitted k given) (hloop : Fits k (Free level taken) given [] [loop]) :
    Fits k (Free level taken) given [] (comparedContainers left right loop) := by
  refine fits_ifThen (Expr.admitted_not.2 (admitted_referenceEquals hleft hright)) ?_
  refine Fits.nests_of_nil (Fits.andThen (fits_leaveIf ?_) (Fits.andThen (fits_leaveIf ?_) hloop))
  · simp [Expr.orElse, hleft, hright]
  · simp [count, hleft, hright]

theorem admitted_uriText {e : Expr} (h : e.Admitted k given) : (uriText e).Admitted k given := by
  simp [uriText, textOf, h]

theorem admitted_differs [Marked k] {e : Expr} (hleft : left.Admitted k given)
    (hright : right.Admitted k given) (he : e = objectEquals left right ∨ e = uriEquals left right) :
    e.not.Admitted k given := by
  rcases he with rfl | rfl
  · simp (disch := decide) [objectEquals, hleft, hright, admitted_plain]
  · simp (disch := decide) [uriEquals, admitted_uriText hleft, admitted_uriText hright, admitted_plain]

theorem admitted_comparerInstance {comparer : String}
    (h : ∀ name ∈ (Comparison.custom comparer).comparers, ¬ k.own name) :
    (comparerInstance comparer).Admitted k given :=
  Expr.admitted_member.2 (Expr.admitted_ident.2 fun hown => absurd hown (h comparer List.mem_cons_self))

/-- Statements for elements nest in a loop, with locals for the elements or without. -/
theorem nests_withElements {named : Bool} {element : Expr → Expr → List Stmt}
    (hbases : ∀ base ∈ ["left", "right"], base ∈ localBases ∧ base ∉ taken)
    (hleft : left.Admitted k given) (hright : right.Admitted k given)
    (helement : ∀ (given : List String) (l r : Expr), l.Admitted k given → r.Admitted k given →
      Fits k (Free (level + 1) []) given [] (element l r)) :
    Nests k (Free level taken) given (withElements named left right level element) := by
  cases named with
  | false => exact (fits_deeper (helement given left right hleft hright)).nests_of_nil
  | true =>
    refine nests_locals hbases (Fits.append (fits_declare hleft) (Fits.append (fits_declare ?_)
      (fits_deeper (helement _ _ _ (admitted_given ?_) (admitted_given ?_))) nofun) ?_)
    · exact hright.mono (List.subset_append_left ..)
    · simp
    · simp
    · simp [numbered_inj]

/-- The lookup of a key adds a local for the value to the block around it. -/
theorem fits_lookup {reserved : String → Prop} {entry : Expr} {found : String}
    (hright : right.Admitted k given) (hentry : entry.Admitted k given) :
    Fits k reserved given [found]
      [leaveIf (.not (.call (.member right "TryGetValue") [.member entry "Key", .outVar found]))] := by
  have hcall : (Expr.call (.member right "TryGetValue") [.member entry "Key"]).Admitted k given := by
    simp [hright, hentry]
  refine fits_ifElse ?_ ?_ (fits_ret Expr.admitted_bool).nests_of_nil fits_nil.nests_of_nil
  · intro name hname
    exact hcall.uses name (by simpa [Expr.used, Expr.usedAll] using hname)
  · have hdeclared :
        (Expr.not (.call (.member right "TryGetValue") [.member entry "Key", .outVar found])).declared =
          (Expr.call (.member right "TryGetValue") [.member entry "Key"]).declared ++ [found] := by
      simp [Expr.declared, Expr.declaredAll]
    rw [hdeclared]
    exact (declares_foreign hcall.declares).append
      ((declares_foreign (List.forall_mem_nil _)).cons List.not_mem_nil) nofun

theorem fits_equalStatements [Marked k] {comparison : Comparison} {shape : Shape}
    (hcomparers : ∀ comparer ∈ comparison.comparers, ¬ k.own comparer)
    (hleft : left.Admitted k given) (hright : right.Admitted k given) :
    Fits k (Free level []) given [] (equalStatements left right comparison shape level) := by
  induction comparison generalizing shape left right level given with
  | value =>
    unfold equalStatements
    refine fits_leaveIf ?_
    split
    · exact admitted_differs hleft hright (Or.inl rfl)
    · exact admitted_differs hleft hright (Or.inr rfl)
    · exact Expr.admitted_binary.2 ⟨hleft, hright⟩
  | structural => exact fits_leaveIf (admitted_differs hleft hright (Or.inl rfl))
  | custom comparer =>
    refine fits_leaveIf ?_
    simp [admitted_comparerInstance hcomparers, hleft, hright]
  | sequence inner ih =>
    exact fits_comparedContainers hleft hright (fits_indexed (by decide) (by decide)
      (Expr.admitted_member.2 hleft) (nests_withElements (by decide) (admitted_element hleft)
        (admitted_element hright) fun _ _ _ => ih hcomparers))
  | unordered inner ih =>
    -- the value that is found is a local of the loop, and the elements are compared one level deeper
    refine fits_comparedContainers hleft hright (fits_each (by decide) (by decide) hleft ?_)
    have hentry : (Expr.ident (numbered "entry" level)).Admitted k
        (numbered "entry" level :: given) := admitted_given List.mem_cons_self
    refine nests_locals (by decide : ∀ base ∈ ["other"], base ∈ localBases ∧ base ∉ ["entry"])
      (Fits.append (fits_lookup (hright.mono (List.subset_cons_self ..)) hentry)
        (fits_deeper (ih hcomparers ?_ (admitted_given ?_))) nofun)
    · exact Expr.admitted_member.2 (hentry.mono (List.subset_append_left ..))
    · simp

/-! ## Hashes -/

theorem fits_foldInto {reserved : String → Prop} {acc : String} {hash : Expr}
    (hacc : (Expr.ident acc).Admitted k given) (hhash : hash.Admitted k given) :
    Fits k reserved given [] [foldInto acc hash] :=
  fits_assign hacc (by simp [hacc, hhash])

theorem fits_foldUnlessNull {acc : String} {value hash : Expr} (hacc : (Expr.ident acc).Admitted k given)
    (hvalue : value.Admitted k given) (hhash : hash.Admitted k given) :
    Fits k (Free level taken) given [] (foldUnlessNull acc value hash) :=
  fits_unlessNull hvalue (fits_foldInto hacc hhash).nests_of_nil

theorem fits_hashStatements {comparison : Comparison} {shape : Shape} {acc : String} {value : Expr}
    (hcomparers : ∀ comparer ∈ comparison.comparers, ¬ k.own comparer)
    (hacc : (Expr.ident acc).Admitted k given) (hvalue : value.Admitted k given) :
    Fits k (Free level []) given [] (hashStatements acc value comparison shape level) := by
  induction comparison generalizing shape acc value level given with
  | value =>
    unfold hashStatements
    split
    · exact fits_foldInto hacc (by simp [hashCode, hvalue])
    · split
      · exact fits_foldUnlessNull hacc hvalue (by simp [hashCode, hvalue])
      · exact fits_foldUnlessNull hacc hvalue (by simp [hashCode, hvalue])
  | structural => exact fits_foldUnlessNull hacc hvalue (by simp [hashCode, hvalue])
  | custom comparer =>
    exact fits_foldUnlessNull hacc hvalue (by simp [admitted_comparerInstance hcomparers, hvalue])
  | sequence inner ih =>
    exact fits_unlessNull hvalue (Fits.nests_of_nil (fits_each (by decide) (by decide) hvalue
      (fits_deeper (ih hcomparers (hacc.mono (List.subset_cons_self ..))
        (admitted_given List.mem_cons_self))).nests_of_nil))
  | unordered inner ih =>
    have hgiven : given ⊆ given ++ [numbered "sum" level] := List.subset_append_left ..
    refine fits_unlessNull hvalue (nests_locals (by decide : ∀ base ∈ ["sum"], base ∈ localBases ∧ base ∉ [])
      (Fits.append (fits_declare Expr.admitted_int) (Fits.andThen
        (fits_each (by decide) (by decide) (hvalue.mono hgiven) ?_) (fits_foldInto (hacc.mono hgiven) ?_))
        nofun))
    · -- the accumulator of an entry is new in every run of the loop
      refine nests_locals
        (by decide : ∀ base ∈ ["entry_hash"], base ∈ localBases ∧ base ∉ ["entry", "sum"])
        (Fits.append (Fits.append (fits_declare ?_) (fits_deeper (ih hcomparers ?_ ?_)) nofun)
          (fits_assign ?_ ?_) nofun)
      · simp [hashCode, admitted_given]
      · exact admitted_given (by simp)
      · simp [admitted_given]
      · exact admitted_given (by simp)
      · simp [admitted_given]
    · exact admitted_given (by simp)

/-! ## Orders -/

theorem fits_setAndCheck [Marked k] {reserved : String → Prop} {result : Expr}
    (h : result.Admitted k given) : Fits k reserved given [] (setAndCheck result) := by
  have hresult : (Expr.ident compareResult).Admitted k given := admitted_plain (by decide)
  refine Fits.andThen (fits_assign hresult h) (fits_ifThen ?_ (fits_ret hresult).nests_of_nil)
  simp [hresult]

theorem admitted_ordinal [Marked k] (hleft : left.Admitted k given) (hright : right.Admitted k given) :
    (ordinal left right).Admitted k given := by
  simp (disch := decide) [ordinal, hleft, hright, admitted_plain]

theorem admitted_objectText {e : Expr} (h : e.Admitted k given) : (objectText e).Admitted k given := by
  simp [objectText, textOf, h]

theorem admitted_scalarComparison [Marked k] {primitive : Primitive} (hleft : left.Admitted k given)
    (hright : right.Admitted k given) : (scalarComparison left right primitive).Admitted k given := by
  cases primitive with
  | string => exact admitted_ordinal hleft hright
  | uri => exact admitted_ordinal (admitted_uriText hleft) (admitted_uriText hright)
  | any => exact admitted_ordinal (admitted_objectText hleft) (admitted_objectText hright)
  | integer | number | boolean | dateTime => simp [scalarComparison, hleft, hright]

theorem admitted_classComparison {name : String} (hleft : left.Admitted k given)
    (hright : right.Admitted k given) : (classComparison name left right).Admitted k given := by
  simp [classComparison, hleft, hright]

theorem fits_orderedContainers [Marked k] {rest : List Stmt} {bases : List String}
    (hbases : ∀ base ∈ bases, base ∈ localBases ∧ base ∉ taken)
    (hleft : left.Admitted k given) (hright : right.Admitted k given)
    (hrest : Fits k (Free level (bases ++ taken)) given (bases.map (numbered · level)) rest) :
    Fits k (Free level taken) given [] (orderedContainers left right rest) := by
  have hleave {e : Expr} (h : e.Admitted k given) (result : Int) :
      Fits k (Free level (bases ++ taken)) given [] [.ifThen e.isNull [.ret (.int result)]] :=
    fits_ifThen (Expr.admitted_isNull.2 h) (fits_ret Expr.admitted_int).nests_of_nil
  refine fits_ifThen (Expr.admitted_not.2 (admitted_referenceEquals hleft hright)) (nests_locals hbases ?_)
  refine Fits.andThen (Fits.andThen (Fits.andThen (hleave hleft _) (hleave hright _))
    (fits_setAndCheck ?_)) hrest
  simp [count, hleft, hright]

theorem fits_orderSequence [Marked k] {named : Bool} {element : Expr → Expr → List Stmt}
    (hleft : left.Admitted k given) (hright : right.Admitted k given)
    (helement : ∀ (given : List String) (l r : Expr), l.Admitted k given → r.Admitted k given →
      Fits k (Free (level + 1) []) given [] (element l r)) :
    Fits k (Free level []) given [] (orderSequence named left right level element) := by
  exact fits_orderedContainers (by decide : ∀ base ∈ [], base ∈ localBases ∧ base ∉ []) hleft hright
    (fits_indexed (by decide) (by decide) (Expr.admitted_member.2 hleft)
      (nests_withElements (by decide) (admitted_element hleft) (admitted_element hright) helement))

theorem fits_orderUnordered [Marked k] {named : Bool} {element : Expr → Expr → List Stmt}
    (hleft : left.Admitted k given) (hright : right.Admitted k given)
    (helement : ∀ (given : List String) (l r : Expr), l.Admitted k given → r.Admitted k given →
      Fits k (Free (level + 1) []) given [] (element l r)) :
    Fits k (Free level []) given [] (orderUnordered named left right level element) := by
  have hsort {names : List String} {keys : String} (h : keys ∈ names) :
      Fits k (Free level ["left_keys", "right_keys"]) names [] [sortKeys keys] :=
    fits_expr (by simp (disch := decide) [admitted_given h, admitted_plain])
  have hkeys {names : List String} {map : Expr} (h : map.Admitted k names) :
      (keyList map).Admitted k names := by
    simp [keyList, h]
  refine fits_orderedContainers
    (by decide : ∀ base ∈ ["left_keys", "right_keys"], base ∈ localBases ∧ base ∉ []) hleft hright ?_
  -- the lists of keys are locals around two loops, which share the name of their index
  refine Fits.append (fits_declare (hkeys hleft)) (Fits.andThen (hsort (by simp))
    (Fits.append (fits_declare (hkeys (hright.mono (List.subset_append_left ..))))
      (Fits.andThen (hsort (by simp)) ?_) nofun)) (by simp [numbered_inj])
  refine Fits.andThen
    (fits_indexed (by decide) (by decide) (by simp [count, admitted_given])
      (fits_setAndCheck (admitted_ordinal ?_ ?_)).nests_of_nil)
    (fits_indexed (by decide) (by decide) (by simp [count, admitted_given])
      (nests_withElements (by decide) ?_ ?_ helement))
  · simp [admitted_given]
  · simp [admitted_given]
  · exact Expr.admitted_index.2 ⟨hleft.mono (by simp), by simp [admitted_given]⟩
  · exact Expr.admitted_index.2 ⟨hright.mono (by simp), by simp [admitted_given]⟩

theorem fits_orderByShape [Marked k] {shape : Shape} (hleft : left.Admitted k given)
    (hright : right.Admitted k given) :
    Fits k (Free level []) given [] (orderByShape shape left right level) := by
  induction shape generalizing left right level given with
  | scalar => exact fits_setAndCheck (admitted_scalarComparison hleft hright)
  | ofClass => exact fits_setAndCheck (admitted_classComparison hleft hright)
  | array element ih => exact fits_orderSequence hleft hright fun _ _ _ => ih
  | map element ih => exact fits_orderUnordered hleft hright fun _ _ _ => ih

theorem fits_orderStatements [Marked k] {comparison : Comparison} {shape : Shape}
    (hleft : left.Admitted k given) (hright : right.Admitted k given) :
    Fits k (Free level []) given [] (orderStatements left right comparison shape level) := by
  induction comparison generalizing shape left right level given with
  | custom => exact fits_orderByShape hleft hright
  | value => exact fits_setAndCheck (admitted_scalarComparison hleft hright)
  | structural => exact fits_setAndCheck (admitted_classComparison hleft hright)
  | sequence inner ih => exact fits_orderSequence hleft hright fun _ _ _ => ih
  | unordered inner ih => exact fits_orderUnordered hleft hright fun _ _ _ => ih

/-! ## Visits -/

theorem nests_withElement {shape : Shape} {e : Expr} {body : Expr → List Stmt}
    (hbase : "value" ∉ taken) (h : e.Admitted k given)
    (hbody : ∀ (given : List String) (e : Expr), e.Admitted k given →
      Fits k (Free (level + 1) []) given [] (body e)) :
    Nests k (Free level taken) given (withElement shape e level body) := by
  unfold withElement
  split
  · exact (fits_deeper (hbody given e h)).nests_of_nil
  · refine nests_locals (List.forall_mem_singleton.2 ⟨by decide, hbase⟩)
      (Fits.append (fits_declare h) (fits_deeper (hbody _ _ (admitted_given ?_))) nofun)
    simp

theorem fits_visitStatements [Marked k] {shape : Shape} {target : Expr} (h : target.Admitted k given) :
    Fits k (Free level []) given [] (visitStatements target shape level) := by
  induction shape generalizing target level given with
  | scalar => exact fits_nil
  | ofClass => exact fits_assign h (by simp (disch := decide) [h, admitted_plain])
  | array element ih =>
    unfold visitStatements
    split
    · exact fits_unlessNull h (Fits.nests_of_nil (fits_indexed (by decide) (by decide)
        (Expr.admitted_member.2 h) (nests_withElement (by decide) (admitted_element h) fun _ _ => ih)))
    · exact fits_nil
  | map element ih =>
    unfold visitStatements
    split
    · exact fits_unlessNull h (Fits.nests_of_nil (fits_each (by decide) (by decide) (by simp [h])
        (nests_withElement (by decide) (admitted_element h) fun _ _ => ih)))
    · exact fits_nil

/-! ## Copies -/

/-- A sink that mentions only what it is handed and what is given. -/
structure SinkAdmitted (k : Kinds) (given : List String) (sink : Expr → Stmt) : Prop where
  uses : ∀ e, ∀ name ∈ (sink e).used, k.own name → name ∈ e.used ∨ name ∈ given
  declares : ∀ e, ∀ name ∈ (sink e).declared, name ∈ e.declared ∨ k.foreign name

theorem SinkAdmitted.fits {reserved : String → Prop} {sink : Expr → Stmt} {e : Expr}
    (h : SinkAdmitted k given sink) (he : e.Admitted k given) : Fits k reserved given [] [sink e] :=
  fits_of_foreign (fun name hname => (h.declares e name hname).elim (he.declares name) id)
    fun name hname hown => (h.uses e name hname hown).elim (fun hused => he.uses name hused hown) id

theorem SinkAdmitted.mono {given' : List String} {sink : Expr → Stmt}
    (h : SinkAdmitted k given sink) (hgiven : given ⊆ given') : SinkAdmitted k given' sink :=
  ⟨fun e name hname hown => (h.uses e name hname hown).imp_right fun hin => hgiven hin, h.declares⟩

theorem fits_guardedCopy {source : Expr} {keepNull : Bool} {sink : Expr → Stmt} {copied : List Stmt}
    (hsource : source.Admitted k given) (hsink : SinkAdmitted k given sink)
    (hcopied : Nests k (Free level taken) given copied) :
    Fits k (Free level taken) given [] (Machine.guardedCopy source keepNull sink copied) := by
  cases keepNull with
  | false => exact fits_unlessNull hsource hcopied
  | true =>
    have hnull : source.isNull.Admitted k given := Expr.admitted_isNull.2 hsource
    exact fits_ifElse hnull.uses (declares_foreign hnull.declares)
      (hsink.fits Expr.admitted_null).nests_of_nil hcopied

/-- The elements go to the new container, which is handed on when it is complete. -/
theorem nests_rebuiltCopy {type : TypeRef} {source : Expr} {sink : Expr → Stmt}
    (hsource : source.Admitted k given) (hsink : SinkAdmitted k given sink)
    (hbody : Nests k (Free level ["value", "destination"])
      (numbered "value" level :: (given ++ [numbered "destination" level])) body) :
    Nests k (Free level []) given (Machine.rebuiltCopy type source level sink body) := by
  refine nests_locals (by decide : ∀ base ∈ ["destination"], base ∈ localBases ∧ base ∉ [])
    (Fits.append (fits_declare (by simp)) (Fits.andThen (fits_each (by decide) (by decide)
      (hsource.mono (List.subset_append_left ..)) hbody)
      ((hsink.mono (List.subset_append_left ..)).fits (admitted_given ?_))) nofun)
  simp

/-- The sink that adds to a list. -/
theorem sinkAdmitted_add {destination : String} (h : destination ∈ given) :
    SinkAdmitted k given fun e => .expr (.call (.member (.ident destination) "Add") [e]) where
  uses e name hname _ := by
    simp only [Stmt.used, Expr.used, Expr.usedAll, List.append_nil, List.singleton_append,
      List.mem_cons] at hname
    exact hname.elim (fun heq => Or.inr (heq ▸ h)) Or.inl
  declares e name hname := by
    simp only [Stmt.declared, Expr.declared, Expr.declaredAll, List.append_nil, List.nil_append] at hname
    exact Or.inl hname

/-- The sink that puts under the key of an entry. -/
theorem sinkAdmitted_put {destination entry : String} (h : destination ∈ given) (hentry : entry ∈ given) :
    SinkAdmitted k given fun e => .assign (.index (.ident destination) (.member (.ident entry) "Key")) e where
  uses e name hname _ := by
    simp only [Stmt.used, Expr.used, List.cons_append, List.mem_cons, List.nil_append] at hname
    rcases hname with rfl | rfl | hname
    · exact Or.inr h
    · exact Or.inr hentry
    · exact Or.inl hname
  declares e name hname := by
    simp only [Stmt.declared, Expr.declared, List.nil_append] at hname
    exact Or.inl hname

theorem fits_copyStatements {shape : Shape} {source : Expr} {keepNull : Bool} {sink : Expr → Stmt}
    (hsource : source.Admitted k given) (hsink : SinkAdmitted k given sink) :
    Fits k (Free level []) given [] (copyStatements source shape level keepNull sink) := by
  induction shape generalizing source level keepNull sink given with
  | scalar => exact hsink.fits hsource
  | ofClass =>
    exact fits_guardedCopy hsource hsink (hsink.fits (by simp [hsource])).nests_of_nil
  | array element ih =>
    exact fits_guardedCopy hsource hsink (nests_rebuiltCopy hsource hsink
      (fits_deeper (ih (admitted_given List.mem_cons_self) (sinkAdmitted_add (by simp)))).nests_of_nil)
  | map element ih =>
    exact fits_guardedCopy hsource hsink (nests_rebuiltCopy hsource hsink
      (fits_deeper (ih (by simp [admitted_given]) (sinkAdmitted_put (by simp) (by simp)))).nests_of_nil)

end

/-! ## Generated statements -/

/-- An expression that mentions no local of a level or of a deeper one. -/
def Spares (level : Nat) (e : Expr) : Prop :=
  (∀ name ∈ e.used, ¬ IsLocal level name) ∧ ∀ name ∈ e.declared, ¬ IsLocal level name

/-- A sink that mentions no local of a level or of a deeper one, besides those of what it is handed. -/
def SparesSink (level : Nat) (sink : Expr → Stmt) : Prop :=
  ∀ e, (∀ name ∈ (sink e).used, IsLocal level name → name ∈ e.used) ∧
    ∀ name ∈ (sink e).declared, IsLocal level name → name ∈ e.declared

/-- Statements that are a well scoped block, and declare locals of a level and of deeper ones, besides names
that an environment declares. -/
structure WellScoped (level : Nat) (foreign : String → Prop) (around before : List String)
    (stmts : List Stmt) : Prop where
  block : Block (IsLocal level) around before stmts
  declares : ∀ name ∈ Stmt.declaredAll stmts, IsLocal level name ∨ foreign name

theorem Spares.admitted {level : Nat} {foreign : String → Prop} {e : Expr} (h : Spares level e)
    (hforeign : ∀ name ∈ e.declared, foreign name) : e.Admitted (locals level foreign) [] :=
  ⟨fun name hname hown => absurd hown (h.1 name hname),
    fun name hname => ⟨hforeign name hname, h.2 name hname⟩⟩

theorem wellScoped_of_fits {level : Nat} {foreign : String → Prop} {around before : List String}
    {stmts : List Stmt} (h : Fits (locals level foreign) (Free level []) [] [] stmts)
    (haround : ∀ name ∈ around, ¬ IsLocal level name) : WellScoped level foreign around before stmts where
  block := h.nests_of_nil.block (fun name hname hown => absurd hown (haround name hname)) (List.nil_subset _)
  declares name hname := (h.nests_of_nil.declares name hname).imp And.left And.left

/-- **Generated locals are well scoped at any nesting.** Statements that start at a level are a well scoped
block wherever no local of that level or of a deeper one is in scope, and these are the names they declare,
besides those that their arguments declare, and those that their sink declares on its own. -/
theorem generated_locals_wellScoped (shape : Shape) (comparison : Comparison) (level : Nat) (keepNull : Bool)
    {left right : Expr} {acc : String} {sink : Expr → Stmt} {around before : List String}
    (hcomparers : ∀ comparer ∈ comparison.comparers, ¬ IsLocal level comparer) (hleft : Spares level left)
    (hright : Spares level right) (hacc : ¬ IsLocal level acc) (hsink : SparesSink level sink)
    (haround : ∀ name ∈ around, ¬ IsLocal level name) :
    WellScoped level (· ∈ left.declared ++ right.declared) around before
      (equalStatements left right comparison shape level) ∧
    WellScoped level (· ∈ left.declared) around before (hashStatements acc left comparison shape level) ∧
    WellScoped level (· ∈ left.declared ++ right.declared) around before
      (orderStatements left right comparison shape level) ∧
    WellScoped level (· ∈ left.declared) around before (visitStatements left shape level) ∧
    WellScoped level
      (fun name => name ∈ left.declared ∨ ∃ e, name ∈ (sink e).declared ∧ name ∉ e.declared) around before
      (copyStatements left shape level keepNull sink) := by
  have hvalue : left.Admitted (locals level (· ∈ left.declared)) [] := hleft.admitted fun _ => id
  have hleft' : left.Admitted (locals level (· ∈ left.declared ++ right.declared)) [] :=
    hleft.admitted fun _ => List.mem_append_left _
  have hright' : right.Admitted (locals level (· ∈ left.declared ++ right.declared)) [] :=
    hright.admitted fun _ => List.mem_append_right _
  refine ⟨wellScoped_of_fits (fits_equalStatements hcomparers hleft' hright') haround,
    wellScoped_of_fits (fits_hashStatements hcomparers ?_ hvalue) haround,
    wellScoped_of_fits (fits_orderStatements hleft' hright') haround,
    wellScoped_of_fits (fits_visitStatements hvalue) haround,
    wellScoped_of_fits (fits_copyStatements (hleft.admitted fun _ => Or.inl) ?_) haround⟩
  · exact Expr.admitted_ident.2 fun hown => absurd hown hacc
  · refine ⟨fun e name hname hown => Or.inl ((hsink e).1 name hname hown), fun e name hname => ?_⟩
    by_cases hhanded : name ∈ e.declared
    · exact Or.inl hhanded
    · exact Or.inr ⟨Or.inr ⟨e, hname, hhanded⟩, fun hown => hhanded ((hsink e).2 name hname hown)⟩

/-- Maps of lists of maps, one level below a loop: the entry of that loop, its accumulator and the container
to which copies are added are in scope. -/
theorem generated_locals_wellScoped_below :
    (∀ base, ¬ IsLocal 1 (numbered base 0)) ∧
    WellScoped 1 (· ∈ []) [numbered "entry" 0, numbered "entry_hash" 0] [numbered "entry" 0]
      (hashStatements (numbered "entry_hash" 0) (.member (.ident (numbered "entry" 0)) "Value")
        (Shape.map (.array (.map .untyped))).comparison (.map (.array (.map .untyped))) 1) ∧
    ∀ name ∈ Stmt.declaredAll (copyStatements (.member (.ident (numbered "entry" 0)) "Value")
      (.map (.array (.map .untyped))) 1 true fun e =>
        .expr (.call (.member (.ident (numbered "destination" 0)) "Add") [e])), IsLocal 1 name := by
  have houter (base : String) : ¬ IsLocal 1 (numbered base 0) := by
    rintro ⟨other, -, depth, hdepth, heq⟩
    have hlevel := (numbered_inj.1 heq).2
    omega
  have hargument (base : String) : Spares 1 (.member (.ident (numbered base 0)) "Value") :=
    ⟨List.forall_mem_singleton.2 (houter base), nofun⟩
  have hadd : SinkAdmitted (locals 1 fun _ => False) [numbered "destination" 0]
      fun e => .expr (.call (.member (.ident (numbered "destination" 0)) "Add") [e]) :=
    sinkAdmitted_add List.mem_cons_self
  have hhanded (e : Expr) (name : String) (hname : name ∈ (Stmt.expr (.call
      (.member (.ident (numbered "destination" 0)) "Add") [e])).declared) : name ∈ e.declared :=
    (hadd.declares e name hname).resolve_right fun h => h.1
  obtain ⟨-, hhash, -, -, hcopy⟩ := generated_locals_wellScoped (.map (.array (.map .untyped)))
    (Shape.map (.array (.map .untyped))).comparison 1 true (by rw [Shape.comparers_comparison]; exact nofun)
    (hargument "entry") (hargument "other") (houter "entry_hash")
    (fun e => ⟨fun name hname hown => (hadd.uses e name hname hown).resolve_right fun hin =>
      houter "destination" (List.mem_singleton.1 hin ▸ hown), fun name hname _ => hhanded e name hname⟩)
    (List.forall_mem_cons.2 ⟨houter "entry", List.forall_mem_singleton.2 (houter "entry_hash")⟩)
  refine ⟨houter, hhash, fun name hname => (hcopy.declares name hname).resolve_right ?_⟩
  rintro (hnone | ⟨e, hdeclared, hnot⟩)
  · exact absurd hnone List.not_mem_nil
  · exact hnot (hhanded e name hdeclared)

end Emit

end Classwright
