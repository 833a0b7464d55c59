import Classwright.Proofs.Emit.Names
import Classwright.Proofs.Instance.Equality
import Classwright.Proofs.Machine.Rules
import Classwright.Proofs.Machine.Trees

/-!
# Generated comparison of values

`equalStatements left right` compares two values: it goes on to the next statement if they are equal
and leaves the method with `false` if not. Here this is shown for scalars, for lists and for maps,
given that it holds for what they hold; `Proofs/Emit/Equality.lean` adds objects and closes the
induction.

## The architecture

* **`Refines`** — what is to be shown of two values that stand for trees: the evaluator decides
  whether the trees are equal, and the statements do what it says (`goOnIf`), under any names for the
  two values that the locals of the comparison do not hide (`Reads`).
* **`Denotes.equal`** — one value stands for equal trees only. The statements skip two containers
  with the same reference, where the evaluator looks into both.
* **`equalLocals`** — the locals of a comparison. Each level of nesting has its own number, so an
  inner loop hides no local of an outer one (`numbered_not_mem_equalLocals`).
* **`Sized`** — what the tests before a loop depend on: a container is `null` or has a number of
  elements. Only two containers of one size reach the loop (`Sized.executes_loop`).
* **`yields_listStep`**, **`yields_mapStep`** — one turn of each loop. `below_goOnIf` and
  `each_goOnIf` make a loop of the turns.
* **`refines_scalar`**, **`refines_list`**, **`refines_map`** — the three results.
-/

namespace Classwright

open Code Emit

namespace Machine

variable {r : Registry} {prog : Program} {heap : Heap}

/-! ## One value stands for equal trees -/

/-- Lists with the same first components, paired by their places. -/
theorem forall₂_of_map_fst_eq {α β : Type} {P : β → β → Prop} {xs ys : List (α × β)}
    (h : xs.map Prod.fst = ys.map Prod.fst)
    (hP : ∀ x ∈ xs, ∀ y ∈ ys, x.1 = y.1 → P x.2 y.2) :
    List.Forall₂ P (xs.map Prod.snd) (ys.map Prod.snd) := by
  induction xs generalizing ys with
  | nil =>
    cases ys with
    | nil => exact .nil
    | cons y ys => cases h
  | cons x xs ih =>
    cases ys with
    | nil => cases h
    | cons y ys =>
      rw [List.map_cons, List.map_cons, List.cons.injEq] at h
      refine .cons (hP x List.mem_cons_self y List.mem_cons_self h.1) (ih h.2 ?_)
      exact fun x' hx' y' hy' => hP x' (List.mem_cons_of_mem _ hx') y' (List.mem_cons_of_mem _ hy')

/-- Fields with the same first components, paired by their keys. -/
theorem match_of_mapValues_fst_eq {α β : Type} {P : β → β → Prop} {xs ys : Fields (α × β)}
    (hx : xs.keys.Nodup) (hy : ys.keys.Nodup) (h : xs.mapValues Prod.fst = ys.mapValues Prod.fst)
    (hP : ∀ x ∈ xs, ∀ y ∈ ys, x.2.1 = y.2.1 → P x.2.2 y.2.2) :
    Fields.Match P (xs.mapValues Prod.snd) (ys.mapValues Prod.snd) := by
  rw [Fields.match_iff (Fields.keys_mapValues _ xs ▸ hx)]
  refine ⟨?_, fun f hf => ?_⟩
  · simpa [Fields.mapValues] using congrArg List.length h
  · obtain ⟨⟨key, v, x⟩, he, rfl⟩ := List.mem_map.1 hf
    have hmem : (key, v) ∈ ys.mapValues Prod.fst := h ▸ List.mem_map.2 ⟨_, he, rfl⟩
    obtain ⟨⟨_, _, y⟩, he', heq⟩ := List.mem_map.1 hmem
    cases heq
    refine ⟨y, ?_, hP _ he _ he' rfl⟩
    rw [Fields.get?_mapValues, Fields.get?_of_mem hy he']
    rfl

/-- **The same reference means equal trees**, so the generated code may skip them. -/
theorem Denotes.equal (hr : r.ComparesByShape) {shape : Shape} {v : Value} {a b : Json}
    (ha : Denotes r heap shape v a) (hb : Denotes r heap shape v b) :
    r.equalValues a shape.comparison shape b = .ok true := by
  induction ha generalizing b with
  | null h =>
    cases hb
    rfl
  | scalar h =>
    cases hb
    exact (Registry.equalValues_true_of_not_opens r rfl).2 (Json.order_self _)
  | object value hc ho hv hd ih =>
    cases hb with
    | object value' hc' ho' hv' hd' =>
      cases hc.symm.trans hc'
      cases ho.symm.trans ho'
      refine (Registry.equalValues_structural_true r rfl rfl).2
        ⟨_, Registry.find_of_get? hc, fun p hp => ?_⟩
      -- the object has one value for the property, and the parts of both trees stand for it
      have hvalue : value p = value' p := Option.some.inj ((hv p hp).symm.trans (hv' p hp))
      rw [Property.evaluated_of_comparison (hr _ (Registry.mem_of_get? hc) p hp)]
      exact ih p hp (hvalue ▸ hd' p hp)
  | list items ho hd ih =>
    cases hb with
    | list items' ho' hd' =>
      have hitems : items.map Prod.fst = items'.map Prod.fst :=
        Object.list.inj (Option.some.inj (ho.symm.trans ho'))
      refine (Registry.equalValues_sequence_true r).2 (forall₂_of_map_fst_eq hitems ?_)
      exact fun x hx y hy hxy => ih x hx (hxy ▸ hd' y hy)
  | map entries hk ho hd ih =>
    cases hb with
    | map entries' hk' ho' hd' =>
      have hentries : entries.mapValues Prod.fst = entries'.mapValues Prod.fst :=
        Object.dictionary.inj (Option.some.inj (ho.symm.trans ho'))
      have hkeys : (entries.mapValues Prod.snd).keys.Nodup := Fields.keys_mapValues _ entries ▸ hk
      rw [Shape.comparison, Registry.equalValues_unordered_true r hkeys]
      exact match_of_mapValues_fst_eq hk hk' hentries fun x hx y hy hxy => ih x hx (hxy ▸ hd' y hy)

/-! ## Locals of the comparison -/

/-- The locals that comparing two values declares. -/
def equalLocals : Comparison → Nat → List String
  | .sequence inner, level =>
    numbered "index" level ::
      (if isContainer inner then [numbered "left" level, numbered "right" level] else []) ++
      equalLocals inner (level + 1)
  | .unordered inner, level =>
    numbered "entry" level :: numbered "other" level :: equalLocals inner (level + 1)
  | _, _ => []

theorem level_of_mem_equalLocals {comparison : Comparison} {level : Nat} {name : String}
    (h : name ∈ equalLocals comparison level) : ∃ base k, level ≤ k ∧ name = numbered base k := by
  induction comparison generalizing level with
  | sequence inner ih =>
    rw [equalLocals, List.cons_append, List.mem_cons, List.mem_append] at h
    rcases h with rfl | h | h
    · exact ⟨_, level, Nat.le_refl _, rfl⟩
    · split at h
      · rcases List.mem_cons.1 h with rfl | h
        · exact ⟨_, level, Nat.le_refl _, rfl⟩
        · exact ⟨_, level, Nat.le_refl _, List.mem_singleton.1 h⟩
      · cases h
    · obtain ⟨base, k, hk, rfl⟩ := ih h
      exact ⟨base, k, Nat.le_of_succ_le hk, rfl⟩
  | unordered inner ih =>
    rw [equalLocals, List.mem_cons, List.mem_cons] at h
    rcases h with rfl | rfl | h
    · exact ⟨_, level, Nat.le_refl _, rfl⟩
    · exact ⟨_, level, Nat.le_refl _, rfl⟩
    · obtain ⟨base, k, hk, rfl⟩ := ih h
      exact ⟨base, k, Nat.le_of_succ_le hk, rfl⟩
  | value => cases h
  | structural name => cases h
  | custom comparer => cases h

/-- Deeper levels do not declare a local again. -/
theorem numbered_not_mem_equalLocals (base : String) (comparison : Comparison) (level : Nat) :
    numbered base level ∉ equalLocals comparison (level + 1) := by
  intro h
  obtain ⟨_, k, hk, heq⟩ := level_of_mem_equalLocals h
  exact absurd (numbered_inj.1 heq).2 (Nat.ne_of_lt hk)

theorem declared_subset_comparedContainers (left right : Expr) (loop : Stmt) :
    loop.declared ⊆ Stmt.declaredAll (comparedContainers left right loop) := by
  intro name h
  simp [comparedContainers, Stmt.ifThen, Stmt.declaredAll, Stmt.declared, h]

/-- The locals of the comparison are among those that its statements declare. -/
theorem equalLocals_subset_declared (left right : Expr) (comparison : Comparison) (shape : Shape)
    (level : Nat) :
    equalLocals comparison level ⊆
      Stmt.declaredAll (equalStatements left right comparison shape level) := by
  induction comparison generalizing left right shape level with
  | sequence inner ih =>
    refine List.Subset.trans ?_ (declared_subset_comparedContainers left right _)
    rw [equalLocals, Stmt.declared, withElements]
    split
    · rw [Stmt.declaredAll_append]
      intro name h
      simp only [List.cons_append, List.nil_append, List.mem_cons] at h
      rcases h with rfl | rfl | rfl | h
      · simp
      · simp [Stmt.declaredAll, Stmt.var, Stmt.declared]
      · simp [Stmt.declaredAll, Stmt.var, Stmt.declared]
      · exact List.mem_append_right _ (List.mem_append_right _ (ih _ _ _ _ h))
    · intro name h
      rcases List.mem_cons.1 h with rfl | h
      · exact List.mem_append_left _ List.mem_cons_self
      · exact List.mem_append_right _ (ih _ _ _ _ h)
  | unordered inner ih =>
    refine List.Subset.trans ?_ (declared_subset_comparedContainers left right _)
    rw [equalLocals, Stmt.declared, Stmt.declaredAll]
    intro name h
    rcases List.mem_cons.1 h with rfl | h
    · exact List.mem_append_left _ List.mem_cons_self
    rcases List.mem_cons.1 h with rfl | h
    · simp [leaveIf, Stmt.ifThen, Stmt.declared, Expr.declared, Expr.declaredAll]
    · exact List.mem_append_right _ (List.mem_append_right _ (ih _ _ _ _ h))
  | value => exact List.nil_subset _
  | structural name => exact List.nil_subset _
  | custom comparer => exact List.nil_subset _

/-! ## What is to be shown -/

/-- What the evaluator says about two trees of a shape. -/
def verdict (r : Registry) (shape : Shape) (a b : Json) : Bool :=
  match r.equalValues a shape.comparison shape b with
  | .ok e => e
  | .error _ => false

/-- The evaluator compares two trees, and the statements for two values that stand for them do the
same: they go on if the trees are equal and leave with `false` if not. -/
structure Refines (prog : Program) (heap : Heap) (shape : Shape) (v w : Value) (a b : Json) :
    Prop where
  evaluates : prog.registry.equalValues a shape.comparison shape b =
    .ok (verdict prog.registry shape a b)
  executes {this : Value} {s : State} {left right : Expr} {level : Nat} (hs : s.heap = heap)
    (hl : Reads prog this s (equalLocals shape.comparison level) left v)
    (hr : Reads prog this s (equalLocals shape.comparison level) right w) :
    Executes prog this s (equalStatements left right shape.comparison shape level)
      (goOnIf (verdict prog.registry shape a b)) s

theorem Refines.intro {shape : Shape} {v w : Value} {a b : Json} {e : Bool}
    (he : prog.registry.equalValues a shape.comparison shape b = .ok e)
    (hx : ∀ {this : Value} {s : State} {left right : Expr} {level : Nat}, s.heap = heap →
      Reads prog this s (equalLocals shape.comparison level) left v →
      Reads prog this s (equalLocals shape.comparison level) right w →
      Executes prog this s (equalStatements left right shape.comparison shape level) (goOnIf e) s) :
    Refines prog heap shape v w a b := by
  have hverdict : verdict prog.registry shape a b = e := by
    rw [verdict, he]
  exact ⟨hverdict ▸ he, fun hs hl hr => hverdict ▸ hx hs hl hr⟩

/-! ## Scalars -/

/-- Scalars of one type are the same if there is no difference between their values. -/
def LeafEquality.Lawful (equal : LeafEquality) : Prop :=
  ∀ (p : Primitive) (a b : Json), p.accepts a = true → p.accepts b = true →
    equal a b = (a.order b == .eq)

theorem LeafEquality.plain_lawful : LeafEquality.plain.Lawful := fun _ _ _ _ _ => rfl

theorem isNull_of_accepts {p : Primitive} {v : Json} (h : p.accepts v = true) :
    v.isNull = false := by
  cases v with
  | null => cases p <;> cases h
  | _ => rfl

theorem Denotes.class?_scalar {p : Primitive} {v : Value} {a : Json}
    (h : Denotes prog.registry heap (.scalar p) v a) : heap.class? prog.registry v = none := by
  cases h <;> rfl

/-- Scalars are the same if there is no difference between them. -/
theorem yields_sameValue_scalar (hequal : prog.leafEqual.Lawful) {p : Primitive} {v w : Value}
    {a b : Json} {s : State} (hv : Denotes prog.registry heap (.scalar p) v a)
    (hw : Denotes prog.registry heap (.scalar p) w b) :
    Yields prog (sameValue prog.leafEqual v w) s (a.order b == .eq) s := by
  cases hv with
  | null _ =>
    cases hw with
    | null _ => exact Yields.result true s
    | scalar hb =>
      have hne : (Json.null.order b == .eq) = false := by
        have := isNull_of_accepts hb
        cases b <;> first | rfl | cases this
      rw [hne]
      exact Yields.result false s
  | scalar ha =>
    cases hw with
    | null _ =>
      have hne : (a.order Json.null == .eq) = false := by
        have := isNull_of_accepts ha
        cases a <;> first | rfl | cases this
      rw [hne]
      exact Yields.result false s
    | scalar hb =>
      rw [← hequal p a b ha hb]
      exact Yields.result _ s

theorem evaluates_isNull {this : Value} {s : State} {e : Expr} {v : Value}
    {b : Bool} (he : Evaluates prog this s e v) (hc : s.heap.class? prog.registry v = none)
    (hb : Yields prog (sameValue prog.leafEqual v .null) s b s) :
    Evaluates prog this s e.isNull (.bool b) :=
  .equalTo he .null hc rfl hb

/-- A URI is its text. -/
theorem evaluates_uriText {this : Value} {s : State} {e : Expr} {v : Value}
    {a : Json} (hv : Denotes prog.registry heap (.scalar .uri) v a) (he : Evaluates prog this s e v) :
    Evaluates prog this s (uriText e) v := by
  cases hv with
  | null _ => exact .conditional (evaluates_isNull he rfl (Yields.result true s)) .null
  | scalar h =>
    cases a with
    | text t =>
      exact .conditional (evaluates_isNull he rfl (Yields.result false s))
        (.member he (Yields.result _ s))
    | _ => cases h

theorem refines_scalar (hequal : prog.leafEqual.Lawful) {p : Primitive} {v w : Value} {a b : Json}
    (hv : Denotes prog.registry heap (.scalar p) v a)
    (hw : Denotes prog.registry heap (.scalar p) w b) :
    Refines prog heap (.scalar p) v w a b := by
  refine .intro (Registry.equalValues_of_not_opens prog.registry rfl _)
    fun {this s left right level} hs hl hr => ?_
  subst hs
  have hsame : Yields prog (sameValue prog.leafEqual v w) s (a.order b == .eq) s :=
    yields_sameValue_scalar hequal hv hw
  refine .single ?_
  rw [show (a.order b == .eq) = !!(a.order b == .eq) from (Bool.not_not _).symm]
  refine yields_leaveIf ?_
  cases p with
  | any =>
    exact Evaluates.not (.objectEquals hl.evaluates hr.evaluates
      (yields_objectsEqual hv.class?_scalar hsame))
  | uri =>
    exact Evaluates.not (.textEquals (evaluates_uriText hv hl.evaluates)
      (evaluates_uriText hw hr.evaluates) hsame)
  | _ =>
    exact Evaluates.notEqualTo hl.evaluates hr.evaluates hv.class?_scalar hw.class?_scalar hsame

/-! ## Containers -/

/-- A container with its number of elements, or `null`. -/
inductive Sized (heap : Heap) : Value → Option Nat → Prop where
  | null : Sized heap .null none
  | list {address : Nat} {items : List Value} (h : heap.object? address = some (.list items)) :
      Sized heap (.ref address) (some items.length)
  | dictionary {address : Nat} {entries : Fields Value}
      (h : heap.object? address = some (.dictionary entries)) :
      Sized heap (.ref address) (some entries.length)

namespace Sized

variable {this : Value} {s : State} {v w : Value} {m n : Option Nat} {k : Nat} {left right : Expr}
  {loop : Stmt}

theorem isReference (h : Sized heap v n) : v.isReference = true := by
  cases h <;> rfl

theorem class?_eq_none (h : Sized heap v n) : heap.class? prog.registry v = none := by
  cases h with
  | null => rfl
  | list ho => rw [Heap.class?, ho]
  | dictionary ho => rw [Heap.class?, ho]

theorem unique (hm : Sized heap v m) (hn : Sized heap v n) : m = n := by
  cases hm with
  | null =>
    cases hn
    rfl
  | list ho =>
    cases hn with
    | list ho' =>
      cases ho.symm.trans ho'
      rfl
    | dictionary ho' => cases ho.symm.trans ho'
  | dictionary ho =>
    cases hn with
    | list ho' => cases ho.symm.trans ho'
    | dictionary ho' =>
      cases ho.symm.trans ho'
      rfl

theorem evaluates_isNull (h : Sized s.heap v n) (hl : Evaluates prog this s left v) :
    Evaluates prog this s left.isNull (.bool n.isNone) := by
  refine Machine.evaluates_isNull hl h.class?_eq_none ?_
  cases h <;> exact Yields.result _ s

theorem evaluates_count (h : Sized s.heap v (some k)) (hl : Evaluates prog this s left v) :
    Evaluates prog this s (count left) (.int k) := by
  cases h with
  | list ho => exact .member hl (yields_count_list ho)
  | dictionary ho => exact .member hl (yields_count_dictionary ho)

/-- A container equals itself, and `null` equals `null`. -/
theorem executes_same (hv : Sized s.heap v n) (hl : Evaluates prog this s left v)
    (hr : Evaluates prog this s right v) :
    Executes prog this s (comparedContainers left right loop) .next s := by
  refine .single (yields_ifThen (Evaluates.not (.referenceEquals hl hr
    (yields_sameReference_self hv.isReference))) nofun fun _ => rfl)

/-- Two containers that are not the same are looked into. -/
theorem executes_of_ne (hv : Sized s.heap v m) (hw : Sized s.heap w n) (hne : v ≠ w)
    (hl : Evaluates prog this s left v) (hr : Evaluates prog this s right w) {flow : Flow}
    (h : Executes prog this s [leaveIf (left.isNull.orElse right.isNull),
      leaveIf ((count left).notEqualTo (count right)), loop] flow s) :
    Executes prog this s (comparedContainers left right loop) flow s :=
  .single (yields_ifThen (Evaluates.not (.referenceEquals hl hr
    (yields_sameReference_of_ne hv.isReference hw.isReference hne))) (fun _ => ⟨[], h⟩) nofun)

/-- Containers of different sizes differ, and a container and `null` do. -/
theorem executes_size (hv : Sized s.heap v m) (hw : Sized s.heap w n) (hne : m ≠ n)
    (hl : Evaluates prog this s left v) (hr : Evaluates prog this s right w) :
    Executes prog this s (comparedContainers left right loop) (.returned (.bool false)) s := by
  have hvw : v ≠ w := by
    rintro rfl
    exact hne (hv.unique hw)
  have hnull := (hv.evaluates_isNull hl).orElse fun _ => hw.evaluates_isNull hr
  refine executes_of_ne hv hw hvw hl hr ?_
  cases m with
  | none => exact .returned (yields_leaveIf hnull) _
  | some i =>
    cases n with
    | none => exact .returned (yields_leaveIf hnull) _
    | some j =>
      have hcount : Evaluates prog this s ((count left).notEqualTo (count right)) (.bool !(i == j)) :=
        .notEqualTo (hv.evaluates_count hl) (hw.evaluates_count hr) rfl rfl
          (yields_sameValue_count i j)
      rw [beq_false_of_ne fun e => hne (congrArg some e)] at hcount
      exact .next (yields_leaveIf hnull) (.returned (yields_leaveIf hcount) _)

/-- Two containers of one size are compared by the loop. -/
theorem executes_loop (hv : Sized s.heap v (some k)) (hw : Sized s.heap w (some k)) (hne : v ≠ w)
    (hl : Evaluates prog this s left v) (hr : Evaluates prog this s right w) {flow : Flow}
    (h : Yields prog (execute this loop) s flow s) :
    Executes prog this s (comparedContainers left right loop) flow s := by
  have hnull := (hv.evaluates_isNull hl).orElse fun _ => hw.evaluates_isNull hr
  have hcount : Evaluates prog this s ((count left).notEqualTo (count right)) (.bool !(k == k)) :=
    .notEqualTo (hv.evaluates_count hl) (hw.evaluates_count hr) rfl rfl (yields_sameValue_count k k)
  rw [beq_self_eq_true] at hcount
  exact executes_of_ne hv hw hne hl hr (.next (yields_leaveIf hnull)
    (.next (yields_leaveIf hcount) (.single h)))

end Sized

theorem equalStatements_container {comparison : Comparison} (h : isContainer comparison = true)
    (left right : Expr) (shape : Shape) (level : Nat) :
    ∃ loop, equalStatements left right comparison shape level =
      comparedContainers left right loop := by
  cases comparison with
  | sequence inner => exact ⟨_, rfl⟩
  | unordered inner => exact ⟨_, rfl⟩
  | _ => cases h

theorem refines_same {shape : Shape} {v : Value} {n : Option Nat} {a b : Json}
    (hshape : isContainer shape.comparison = true) (hv : Sized heap v n)
    (he : prog.registry.equalValues a shape.comparison shape b = .ok true) :
    Refines prog heap shape v v a b := by
  refine .intro he fun {this s left right level} hs hl hr => ?_
  subst hs
  obtain ⟨loop, hloop⟩ := equalStatements_container hshape left right shape level
  rw [hloop]
  exact hv.executes_same hl.evaluates hr.evaluates

theorem refines_size {shape : Shape} {v w : Value} {m n : Option Nat} {a b : Json}
    (hshape : isContainer shape.comparison = true) (hv : Sized heap v m) (hw : Sized heap w n)
    (hne : m ≠ n) (he : prog.registry.equalValues a shape.comparison shape b = .ok false) :
    Refines prog heap shape v w a b := by
  refine .intro he fun {this s left right level} hs hl hr => ?_
  subst hs
  obtain ⟨loop, hloop⟩ := equalStatements_container hshape left right shape level
  rw [hloop]
  exact hv.executes_size hw hne hl.evaluates hr.evaluates

/-! ## Lists -/

/-- Elements are compared under names of their own, or through the expressions for them. -/
theorem executes_withElements {this : Value} {s : State} {named : Bool} {left right : Expr}
    {level : Nat} {v w : Value} {names : List String} {body : Expr → Expr → List Stmt} {flow : Flow}
    (hleft : numbered "left" level ∉ names) (hright : numbered "right" level ∉ names)
    (hl : Reads prog this s
      ((if named then [numbered "left" level, numbered "right" level] else []) ++ names) left v)
    (hr : Reads prog this s
      ((if named then [numbered "left" level, numbered "right" level] else []) ++ names) right w)
    (hbody : ∀ {t : State} {left' right' : Expr}, t.heap = s.heap → Reads prog this t names left' v →
      Reads prog this t names right' w → Executes prog this t (body left' right') flow t) :
    ∃ ext, Executes prog this s (withElements named left right level body) flow (s.push ext) := by
  cases named with
  | false => exact ⟨[], hbody rfl hl hr⟩
  | true =>
    have hne : numbered "left" level ≠ numbered "right" level := fun h =>
      absurd (numbered_inj.1 h).1 (by decide)
    refine ⟨[(numbered "right" level, w), (numbered "left" level, v)], ?_⟩
    -- the second element is read when the first one has its name already
    have hr' : Evaluates prog this (s.push [(numbered "left" level, v)]) right w :=
      hr _ (by simp)
    refine .next (yields_declare hl.evaluates) (.next (yields_declare hr') ?_)
    rw [State.push_push]
    refine hbody rfl (.localOf ?_ hleft) (.localOf ?_ hright)
    · rw [show (s.push _).locals = _ :: _ :: s.locals from rfl, Fields.get?_cons, if_neg hne,
        Fields.get?_cons_self]
    · rw [show (s.push _).locals = _ :: _ :: s.locals from rfl, Fields.get?_cons_self]

/-- One turn of the loop over two lists. -/
theorem yields_listStep {this : Value} {s : State} {left right : Expr} {level i j k : Nat}
    {element : Shape} {xs ys : List Value} {v w : Value} {a b : Json}
    (hx : s.heap.object? i = some (.list xs)) (hy : s.heap.object? j = some (.list ys))
    (hl : Reads prog this s (equalLocals (.sequence element.comparison) level) left (.ref i))
    (hr : Reads prog this s (equalLocals (.sequence element.comparison) level) right (.ref j))
    (hv : xs[k]? = some v) (hw : ys[k]? = some w) (h : Refines prog s.heap element v w a b) :
    Yields prog (block this [(numbered "index" level, .int k)]
      (withElements (isContainer element.comparison) (.index left (.ident (numbered "index" level)))
        (.index right (.ident (numbered "index" level))) level fun l r =>
          equalStatements l r element.comparison element (level + 1)))
      s (goOnIf (verdict prog.registry element a b)) s := by
  let named : List String := if isContainer element.comparison then
    [numbered "left" level, numbered "right" level] else []
  let names := named ++ equalLocals element.comparison (level + 1)
  let t := s.push [(numbered "index" level, .int k)]
  have hindex : numbered "index" level ∉ names := by
    intro hmem
    rcases List.mem_append.1 hmem with hmem | hmem
    · have hne (base : String) (hb : "index" ≠ base) :
          numbered "index" level ≠ numbered base level :=
        fun he => hb (numbered_inj.1 he).1
      dsimp only [named] at hmem
      split at hmem
      · simp [hne "left" (by decide), hne "right" (by decide)] at hmem
      · cases hmem
    · exact numbered_not_mem_equalLocals _ _ _ hmem
  have hposition : Reads prog this t names (.ident (numbered "index" level)) (.int k) := by
    refine .localOf ?_ hindex
    rw [show t.locals = _ :: s.locals from rfl, Fields.get?_cons_self]
  -- the index is one of the locals that the two lists are read under
  have hsub : Fields.keys [(numbered "index" level, Value.int k)] ⊆
      equalLocals (.sequence element.comparison) level :=
    fun _ hmem => List.mem_cons.2 (Or.inl (List.mem_singleton.1 hmem))
  have hnames : names ⊆ equalLocals (.sequence element.comparison) level :=
    List.subset_cons_self _ _
  have hleft : Reads prog this t names left (.ref i) := (hl.push hsub).mono hnames
  have hright : Reads prog this t names right (.ref j) := (hr.push hsub).mono hnames
  obtain ⟨ext, hbody⟩ := executes_withElements
    (numbered_not_mem_equalLocals "left" element.comparison level)
    (numbered_not_mem_equalLocals "right" element.comparison level)
    (.index hleft hposition fun u hu => yields_item (hu ▸ hx) hv)
    (.index hright hposition fun u hu => yields_item (hu ▸ hy) hw)
    (fun hu hl' hr' => h.executes hu hl' hr')
  rw [State.push_push] at hbody
  exact yields_block hbody

/-- **Lists.** -/
theorem refines_list (hr : prog.registry.ComparesByShape) {element : Shape} {address : Nat}
    {items : List (Value × Json)} (ho : heap.object? address = some (.list (items.map Prod.fst)))
    (hd : ∀ q ∈ items, Denotes prog.registry heap element q.1 q.2)
    (ih : ∀ q ∈ items, ∀ {w : Value} {b : Json}, Denotes prog.registry heap element w b →
      Refines prog heap element q.1 w q.2 b)
    {w : Value} {b : Json} (hw : Denotes prog.registry heap (.array element) w b) :
    Refines prog heap (.array element) (.ref address) w (.list (items.map Prod.snd)) b := by
  cases hw with
  | null _ => exact refines_size rfl (.list ho) .null nofun rfl
  | @list _ address' items' ho' hd' =>
    by_cases haddress : address = address'
    -- the same list is skipped, but the evaluator has looked into it
    · subst haddress
      exact refines_same rfl (.list ho) ((Denotes.list items ho hd).equal hr (.list items' ho' hd'))
    by_cases hlen : items.length = items'.length
    · let test (q : (Value × Json) × (Value × Json)) : Bool :=
        verdict prog.registry element q.1.2 q.2.2
      have hstep (q) (hq : q ∈ items.zip items') : Refines prog heap element q.1.1 q.2.1 q.1.2 q.2.2 :=
        ih q.1 (List.of_mem_zip hq).1 (hd' q.2 (List.of_mem_zip hq).2)
      refine .intro (e := ((items.zip items').map test).all id) ?_
        fun {this s left right level} hs hl hr => ?_
      · rw [Shape.comparison, Registry.equalValues_sequence, List.length_map, List.length_map,
          if_pos hlen, List.zip_map, allM_map, List.all_map]
        exact allM_eq_all fun q hq => (hstep q hq).evaluates
      · subst hs
        have hne : Value.ref address ≠ .ref address' := fun he => haddress (Value.ref.inj he)
        have hsize : (items'.map Prod.fst).length = (items.map Prod.fst).length := by simp [hlen]
        refine Sized.executes_loop (.list ho) (hsize ▸ .list ho') hne hl.evaluates hr.evaluates ?_
        -- one turn of the loop for each pair of elements
        refine yields_forBelow (below_goOnIf ((Sized.list ho).evaluates_count hl.evaluates) ?_ ?_)
        · simp [hlen]
        · intro k e hk
          rw [List.getElem?_map, Option.map_eq_some_iff] at hk
          obtain ⟨q, hq, rfl⟩ := hk
          have hmem := hstep q (List.mem_of_getElem? hq)
          rw [List.getElem?_zip_eq_some] at hq
          rw [Nat.zero_add]
          refine yields_listStep ho ho' hl hr ?_ ?_ hmem
          · rw [List.getElem?_map, hq.1]
            rfl
          · rw [List.getElem?_map, hq.2]
            rfl
    · refine refines_size rfl (.list ho) (.list ho') ?_ ?_
      · simpa using hlen
      · rw [Shape.comparison, Registry.equalValues_sequence, List.length_map, List.length_map,
          if_neg hlen]

/-! ## Maps -/

/-- What the evaluator says about an entry and what a map has under its key. -/
def entryVerdict (r : Registry) (element : Shape) (a : Json) (found : Option (Value × Json)) :
    Bool :=
  match found with
  | some (_, b) => verdict r element a b
  | none => false

/-- One turn of the loop over two maps. -/
theorem yields_mapStep {this : Value} {s : State} {right : Expr} {level j : Nat}
    {element : Shape} {entries : Fields (Value × Json)} {key : String} {v : Value} {a : Json}
    (ho : s.heap.object? j = some (.dictionary (entries.mapValues Prod.fst)))
    (hr : Reads prog this s (equalLocals (.unordered element.comparison) level) right (.ref j))
    (h : ∀ w b, entries.get? key = some (w, b) → Refines prog s.heap element v w a b) :
    Yields prog (block this [(numbered "entry" level, .entry key v)]
      (leaveIf (.not (.call (.member right "TryGetValue")
        [.member (.ident (numbered "entry" level)) "Key", .outVar (numbered "other" level)])) ::
        equalStatements (.member (.ident (numbered "entry" level)) "Value")
          (.ident (numbered "other" level)) element.comparison element (level + 1)))
      s (goOnIf (entryVerdict prog.registry element a (entries.get? key))) s := by
  let t := s.push [(numbered "entry" level, .entry key v)]
  have hentry : Evaluates prog this t (.ident (numbered "entry" level)) (.entry key v) := by
    apply Evaluates.localOf
    rw [show t.locals = _ :: s.locals from rfl, Fields.get?_cons_self]
  have hright : Evaluates prog this t right (.ref j) :=
    hr _ fun _ hmem => List.mem_cons.2 (Or.inl (List.mem_singleton.1 hmem))
  have hkey : Evaluates prog this t (.member (.ident (numbered "entry" level)) "Key")
      (.leaf (.text key)) := .member hentry (Yields.result _ t)
  have hvalue : Yields prog (lookUp (.ref j) (.leaf (.text key))) t
      ((entries.get? key).map Prod.fst) t := by
    have ho' : t.heap.object? j = some (.dictionary (entries.mapValues Prod.fst)) := ho
    rw [← Fields.get?_mapValues]
    exact yields_lookUp ho' key
  have hleave := yields_leaveIf
    (yields_not (yields_tryGetValue (numbered "other" level) hright hkey hvalue))
  cases hfound : entries.get? key with
  | none =>
    rw [hfound, State.push_push] at hleave
    exact yields_block (.returned hleave _)
  | some f =>
    obtain ⟨w, b⟩ := f
    rw [hfound, State.push_push] at hleave
    -- what was found is compared while both locals of this level are in sight
    let u := s.push [(numbered "other" level, w), (numbered "entry" level, .entry key v)]
    have hentry : Reads prog this u (equalLocals element.comparison (level + 1))
        (.ident (numbered "entry" level)) (.entry key v) := by
      have hne : numbered "entry" level ≠ numbered "other" level := fun he =>
        absurd (numbered_inj.1 he).1 (by decide)
      refine .localOf ?_ (numbered_not_mem_equalLocals _ _ _)
      rw [show u.locals = _ :: _ :: s.locals from rfl, Fields.get?_cons, if_neg hne,
        Fields.get?_cons_self]
    have hother : Reads prog this u (equalLocals element.comparison (level + 1))
        (.ident (numbered "other" level)) w := by
      refine .localOf ?_ (numbered_not_mem_equalLocals _ _ _)
      rw [show u.locals = _ :: _ :: s.locals from rfl, Fields.get?_cons_self]
    have hvalue : Reads prog this u (equalLocals element.comparison (level + 1))
        (.member (.ident (numbered "entry" level)) "Value") v :=
      hentry.member fun x _ => Yields.result v x
    exact yields_block (.next hleave
      ((h w b hfound).executes (show u.heap = s.heap from rfl) hvalue hother))

theorem equalValues_entries {element : Shape} {entries entries' : Fields (Value × Json)}
    (hlen : entries.length = entries'.length)
    (h : ∀ e ∈ entries, ∀ w b, entries'.get? e.1 = some (w, b) →
      prog.registry.equalValues e.2.2 element.comparison element b =
        .ok (verdict prog.registry element e.2.2 b)) :
    prog.registry.equalValues (.object (entries.mapValues Prod.snd)) (.unordered element.comparison)
        (.map element) (.object (entries'.mapValues Prod.snd)) =
      .ok (entries.all fun e => entryVerdict prog.registry element e.2.2 (entries'.get? e.1)) := by
  rw [Registry.equalValues_unordered, Fields.length_mapValues, Fields.length_mapValues, if_pos hlen,
    show entries.mapValues Prod.snd = entries.map fun e => (e.1, e.2.2) from rfl, allM_map]
  refine allM_eq_all fun e he => ?_
  simp only [Fields.get?_mapValues, Shape.element]
  cases hf : entries'.get? e.1 with
  | none => rfl
  | some f => exact h e he f.1 f.2 hf

/-- **Maps.** -/
theorem refines_map (hr : prog.registry.ComparesByShape) {element : Shape} {address : Nat}
    {entries : Fields (Value × Json)} (hk : entries.keys.Nodup)
    (ho : heap.object? address = some (.dictionary (entries.mapValues Prod.fst)))
    (hd : ∀ e ∈ entries, Denotes prog.registry heap element e.2.1 e.2.2)
    (ih : ∀ e ∈ entries, ∀ {w : Value} {b : Json}, Denotes prog.registry heap element w b →
      Refines prog heap element e.2.1 w e.2.2 b)
    {w : Value} {b : Json} (hw : Denotes prog.registry heap (.map element) w b) :
    Refines prog heap (.map element) (.ref address) w (.object (entries.mapValues Prod.snd)) b := by
  cases hw with
  | null _ => exact refines_size rfl (.dictionary ho) .null nofun rfl
  | @map _ address' entries' hk' ho' hd' =>
    by_cases haddress : address = address'
    · subst haddress
      exact refines_same rfl (.dictionary ho)
        ((Denotes.map entries hk ho hd).equal hr (.map entries' hk' ho' hd'))
    by_cases hlen : entries.length = entries'.length
    · let test (e : String × Value × Json) : Bool :=
        entryVerdict prog.registry element e.2.2 (entries'.get? e.1)
      let tests := entries.map fun e => (Value.entry e.1 e.2.1, test e)
      have hstep (e) (he : e ∈ entries) (w b) (hf : entries'.get? e.1 = some (w, b)) :
          Refines prog heap element e.2.1 w e.2.2 b :=
        ih e he (hd' _ (Fields.mem_of_get? hf))
      refine .intro (e := tests.all Prod.snd) ?_ fun {this s left right level} hs hl hr => ?_
      · rw [List.all_map]
        exact equalValues_entries hlen fun e he w b hf => (hstep e he w b hf).evaluates
      · subst hs
        have hne : Value.ref address ≠ .ref address' := fun he => haddress (Value.ref.inj he)
        have hsize : (entries'.mapValues Prod.fst).length = (entries.mapValues Prod.fst).length := by
          rw [Fields.length_mapValues, Fields.length_mapValues, hlen]
        refine Sized.executes_loop (.dictionary ho) (hsize ▸ .dictionary ho') hne hl.evaluates
          hr.evaluates ?_
        -- the loop goes through the first map, and its statements write to nothing
        obtain ⟨version, hversion⟩ := yields_writes (s := s) address
        have helements : (entries.mapValues Prod.fst).map (fun f => Value.entry f.1 f.2) =
            tests.map Prod.fst := by
          rw [Fields.mapValues, List.map_map, List.map_map]
          rfl
        refine yields_forEach hl.evaluates hversion (yields_elements ho) ?_
        rw [helements]
        refine each_goOnIf hversion fun q hq => ?_
        obtain ⟨e, he, rfl⟩ := List.mem_map.1 hq
        exact yields_mapStep ho' hr (hstep e he)
    · refine refines_size rfl (.dictionary ho) (.dictionary ho') ?_ ?_
      · rw [Fields.length_mapValues, Fields.length_mapValues]
        exact fun he => hlen (Option.some.inj he)
      · rw [Shape.comparison, Registry.equalValues_unordered, Fields.length_mapValues,
          Fields.length_mapValues, if_neg hlen]

end Machine

end Classwright
