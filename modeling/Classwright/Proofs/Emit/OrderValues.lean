import Classwright.Proofs.Emit.EqualValues
import Classwright.Proofs.Instance.Order
import Classwright.Proofs.Machine.Decisions

/-!
# Generated order of values

`orderByShape shape left right` orders two values: it goes on to the next statement if there is no
difference and leaves the method with a number if there is one. Here this is shown for scalars, for
lists and for maps, given that it holds for what they hold; `Proofs/Emit/Order.lean` adds objects and
closes the induction.

## The architecture

* **`OrderRefines`** — what is to be shown of two values that stand for trees: the evaluator decides
  about their order, and the statements do what it says (`Orders`), in every state that has the same
  objects and maybe new ones.
* **`Denotes.order_eq`** — one value stands for trees without a difference. The statements skip two
  containers with the same reference, where the evaluator looks into both.
* **`orderLocals`** — the locals of a comparison. The local for the result is none of them.
* **`orders_containers`** — the tests before the loops: `null` comes first, then the sizes decide.
* **`orders_elementsLoop`** — a loop over the elements of two containers; `orders_turn` is one turn.
* **`orderRefines_scalar`**, **`orderRefines_list`**, **`orderRefines_map`** — the three results. A map
  has two loops, over its sorted keys and over the values of these keys (`KeysReady`).
-/

namespace Classwright

open Code Emit

namespace Machine

variable {prog : Program} {heap : Heap}

/-! ## First differences -/

theorem firstUnequal_eq_firstOf {α : Type} {test : α → Except InstanceFault Ordering}
    {f : α → Ordering} {l : List α} (h : ∀ x ∈ l, test x = .ok (f x)) :
    firstUnequal test l = .ok (firstOf (l.map f)) := by
  induction l with
  | nil => rfl
  | cons x l ih =>
    rw [firstUnequal_cons, h x List.mem_cons_self, ih fun y hy => h y (List.mem_cons_of_mem _ hy),
      List.map_cons, firstOf]
    cases f x <;> rfl

theorem thenOk_ok (o o' : Ordering) : thenOk o (.ok o') = .ok (o.then o') := by
  cases o <;> rfl

theorem orderKeys_eq_firstOf {xs ys : List String} (h : xs.length = ys.length) :
    orderKeys xs ys = firstOf ((xs.zip ys).map fun q => (Json.text q.1).order (.text q.2)) := by
  induction xs generalizing ys with
  | nil =>
    cases ys with
    | nil => rfl
    | cons y ys => cases h
  | cons x xs ih =>
    cases ys with
    | nil => cases h
    | cons y ys =>
      rw [List.zip_cons_cons, List.map_cons, firstOf, ← ih (Nat.succ.inj h)]
      exact List.compareLex_cons_cons

/-- **The same reference means no difference**, so the generated code may skip what it leads to. -/
theorem Denotes.order_eq {r : Registry} (hr : r.EvaluatesByShape) {shape : Shape} {v : Value}
    {a b : Json} (ha : Denotes r heap shape v a) (hb : Denotes r heap shape v b) :
    r.orderValues a shape.comparison shape b = .ok .eq := by
  -- an address holds one object, so the parts of both trees are denoted by the same values
  induction ha generalizing b with
  | null h =>
    cases hb
    rfl
  | scalar h =>
    cases hb
    rw [Shape.comparison, Registry.orderValues_of_not_opens r rfl, Json.order_self]
  | object value hc ho hv hd ih =>
    cases hb with
    | object value' hc' ho' hv' hd' =>
      cases hc.symm.trans hc'
      cases ho.symm.trans ho'
      refine (Registry.orderValues_structural_eq r rfl rfl).2
        ⟨_, Registry.find_of_get? hc, fun p hp => ?_⟩
      have hvalue : value p = value' p := Option.some.inj ((hv p hp).symm.trans (hv' p hp))
      rw [hr _ (Registry.mem_of_get? hc) p hp]
      exact ih p hp (hvalue ▸ hd' p hp)
  | list items ho hd ih =>
    cases hb with
    | list items' ho' hd' =>
      have hitems : items.map Prod.fst = items'.map Prod.fst :=
        Object.list.inj (Option.some.inj (ho.symm.trans ho'))
      refine (Registry.orderValues_sequence_eq r).2 (forall₂_of_map_fst_eq hitems ?_)
      exact fun x hx y hy hxy => ih x hx (hxy ▸ hd' y hy)
  | map entries hk ho hd ih =>
    cases hb with
    | map entries' hk' ho' hd' =>
      have hentries : entries.mapValues Prod.fst = entries'.mapValues Prod.fst :=
        Object.dictionary.inj (Option.some.inj (ho.symm.trans ho'))
      refine (Registry.orderValues_unordered_eq r).2 (match_of_mapValues_fst_eq hk hk' hentries ?_)
      exact fun x hx y hy hxy => ih x hx (hxy ▸ hd' y hy)

/-! ## Locals of the comparison -/

/-- The locals for two elements: only containers have some. -/
def elementNames (element : Shape) (level : Nat) : List String :=
  if isContainer element.comparison then [numbered "left" level, numbered "right" level] else []

/-- The locals that ordering two values declares. -/
def orderLocals : Shape → Nat → List String
  | .array element, level =>
    numbered "index" level :: (elementNames element level ++ orderLocals element (level + 1))
  | .map element, level =>
    numbered "left_keys" level :: numbered "right_keys" level :: numbered "index" level ::
      (elementNames element level ++ orderLocals element (level + 1))
  | _, _ => []

theorem base_of_mem_elementNames {element : Shape} {level : Nat} {name : String}
    (h : name ∈ elementNames element level) :
    ∃ base, (base = "left" ∨ base = "right") ∧ name = numbered base level := by
  unfold elementNames at h
  split at h
  · rcases List.mem_cons.1 h with rfl | h
    · exact ⟨_, Or.inl rfl, rfl⟩
    · exact ⟨_, Or.inr rfl, List.mem_singleton.1 h⟩
  · cases h

theorem level_of_mem_orderLocals {shape : Shape} {level : Nat} {name : String}
    (h : name ∈ orderLocals shape level) : ∃ base k, level ≤ k ∧ name = numbered base k := by
  have hinner {element : Shape} {level : Nat}
      (ih : ∀ {level : Nat}, name ∈ orderLocals element level →
        ∃ base k, level ≤ k ∧ name = numbered base k)
      (h : name ∈ elementNames element level ++ orderLocals element (level + 1)) :
      ∃ base k, level ≤ k ∧ name = numbered base k := by
    rcases List.mem_append.1 h with h | h
    · obtain ⟨base, -, rfl⟩ := base_of_mem_elementNames h
      exact ⟨base, level, Nat.le_refl _, rfl⟩
    · obtain ⟨base, k, hk, rfl⟩ := ih h
      exact ⟨base, k, Nat.le_of_succ_le hk, rfl⟩
  induction shape generalizing level with
  | array element ih =>
    rcases List.mem_cons.1 h with rfl | h
    · exact ⟨_, level, Nat.le_refl _, rfl⟩
    · exact hinner ih h
  | map element ih =>
    simp only [orderLocals, List.mem_cons] at h
    rcases h with rfl | rfl | rfl | h
    · exact ⟨_, level, Nat.le_refl _, rfl⟩
    · exact ⟨_, level, Nat.le_refl _, rfl⟩
    · exact ⟨_, level, Nat.le_refl _, rfl⟩
    · exact hinner ih h
  | scalar p => cases h
  | ofClass name => cases h

/-- Deeper levels do not declare a local again. -/
theorem numbered_not_mem_orderLocals (base : String) (shape : Shape) (level : Nat) :
    numbered base level ∉ orderLocals shape (level + 1) := by
  intro h
  obtain ⟨_, k, hk, heq⟩ := level_of_mem_orderLocals h
  exact absurd (numbered_inj.1 heq).2 (Nat.ne_of_lt hk)

/-- A local of a loop hides none of those that its body declares. -/
theorem numbered_not_mem_inner {base : String} (hl : base ≠ "left") (hr : base ≠ "right")
    (element : Shape) (level : Nat) :
    numbered base level ∉ elementNames element level ++ orderLocals element (level + 1) := by
  intro h
  rcases List.mem_append.1 h with h | h
  · obtain ⟨base', hbase, heq⟩ := base_of_mem_elementNames h
    rw [(numbered_inj.1 heq).1] at hl hr
    exact hbase.elim hl hr
  · exact numbered_not_mem_orderLocals _ _ _ h

/-- Names without a mark are not hidden at all. -/
theorem not_mem_orderLocals {name : String} (h : '_' ∉ name.toList) (shape : Shape) (level : Nat) :
    name ∉ orderLocals shape level := by
  intro hmem
  obtain ⟨base, k, -, heq⟩ := level_of_mem_orderLocals hmem
  exact ne_numbered h base k heq

theorem declared_subset_orderedContainers (left right : Expr) (rest : List Stmt) :
    Stmt.declaredAll rest ⊆ Stmt.declaredAll (orderedContainers left right rest) := by
  intro name h
  simp [orderedContainers, Stmt.ifThen, Stmt.declaredAll, Stmt.declared, Stmt.declaredAll_append, h]

/-- The key that a loop has come to. -/
def keyAt (keys : String) (level : Nat) : Expr :=
  .index (.ident (numbered keys level)) (.ident (numbered "index" level))

/-- The locals of the comparison are among those that its statements declare. -/
theorem orderLocals_subset_declared (left right : Expr) (shape : Shape) (level : Nat) :
    orderLocals shape level ⊆ Stmt.declaredAll (orderByShape shape left right level) := by
  have hinner (element : Shape) (level : Nat) (l r : Expr)
      (ih : ∀ l r, orderLocals element (level + 1) ⊆
        Stmt.declaredAll (orderByShape element l r (level + 1))) :
      elementNames element level ++ orderLocals element (level + 1) ⊆
        Stmt.declaredAll (withElements (isContainer element.comparison) l r level fun l r =>
          orderByShape element l r (level + 1)) := by
    unfold elementNames withElements
    intro name h
    split at h
    · next hc =>
      rw [if_pos hc, Stmt.declaredAll_append]
      rcases List.mem_append.1 h with h | h
      · refine List.mem_append_left _ ?_
        rcases List.mem_cons.1 h with rfl | h
        · simp [Stmt.declaredAll, Stmt.var, Stmt.declared]
        · cases List.mem_singleton.1 h
          simp [Stmt.declaredAll, Stmt.var, Stmt.declared]
      · exact List.mem_append_right _ (ih _ _ h)
    · next hc =>
      rw [if_neg hc]
      exact ih _ _ h
  induction shape generalizing left right level with
  | array element ih =>
    refine List.Subset.trans ?_ (declared_subset_orderedContainers left right _)
    intro name h
    rw [Stmt.declaredAll, Stmt.declared, Stmt.declaredAll, List.append_nil]
    rcases List.mem_cons.1 h with rfl | h
    · exact List.mem_append_left _ List.mem_cons_self
    · exact List.mem_append_right _ (hinner element level _ _ (fun l r => ih l r _) h)
  | map element ih =>
    refine List.Subset.trans ?_ (declared_subset_orderedContainers left right _)
    intro name h
    simp only [orderLocals, List.mem_cons] at h
    rcases h with rfl | rfl | rfl | h
    · simp [Stmt.declaredAll, Stmt.var, Stmt.declared]
    · simp [Stmt.declaredAll, Stmt.var, Stmt.declared]
    · simp [Stmt.declaredAll, Stmt.declared]
    · have hmem := hinner element level
        (.index left (keyAt "left_keys" level)) (.index right (keyAt "right_keys" level))
        (fun l r => ih l r _) h
      unfold keyAt at hmem
      simp [Stmt.declaredAll, Stmt.declared, hmem]
  | scalar p => exact List.nil_subset _
  | ofClass name => exact List.nil_subset _

/-! ## What is to be shown -/

/-- What the evaluator says about two trees of a shape. -/
def ranking (r : Registry) (shape : Shape) (a b : Json) : Ordering :=
  match r.orderValues a shape.comparison shape b with
  | .ok o => o
  | .error _ => .eq

/-- The evaluator orders two trees, and the statements for two values that stand for them do the
same. -/
structure OrderRefines (prog : Program) (heap : Heap) (shape : Shape) (v w : Value) (a b : Json) :
    Prop where
  evaluates : prog.registry.orderValues a shape.comparison shape b =
    .ok (ranking prog.registry shape a b)
  orders {this : Value} {s : State} {left right : Expr} {level : Nat} (hs : heap <+: s.heap)
    (hzero : Fields.get? s.locals compareResult = some (.int 0))
    (hl : Stable prog this s (orderLocals shape level) (fun _ => False) left v)
    (hr : Stable prog this s (orderLocals shape level) (fun _ => False) right w) :
    Orders prog (executeAll this (orderByShape shape left right level)) s []
      (ranking prog.registry shape a b)

theorem OrderRefines.intro {shape : Shape} {v w : Value} {a b : Json} {o : Ordering}
    (he : prog.registry.orderValues a shape.comparison shape b = .ok o)
    (hx : ∀ {this : Value} {s : State} {left right : Expr} {level : Nat}, heap <+: s.heap →
      Fields.get? s.locals compareResult = some (.int 0) →
      Stable prog this s (orderLocals shape level) (fun _ => False) left v →
      Stable prog this s (orderLocals shape level) (fun _ => False) right w →
      Orders prog (executeAll this (orderByShape shape left right level)) s [] o) :
    OrderRefines prog heap shape v w a b := by
  have hranking : ranking prog.registry shape a b = o := by
    rw [ranking, he]
  exact ⟨hranking ▸ he, fun hs hzero hl hr => hranking ▸ hx hs hzero hl hr⟩

/-! ## Scalars -/

section

variable {this : Value} {s : State} {left right : Expr} {v w : Value} {a b : Json}

/-- Texts, or `null` in their place. -/
theorem compares_ordinal (horder : prog.leafOrder.Lawful) {p : Primitive}
    (hp : p = .string ∨ p = .uri) (hv : Denotes prog.registry heap (.scalar p) v a)
    (hw : Denotes prog.registry heap (.scalar p) w b) (hl : Evaluates prog this s left v)
    (hr : Evaluates prog this s right w) :
    Compares prog (evaluate this (ordinal left right)) s (a.order b) := by
  have htext {c : Json} (h : p.accepts c = true) : ∃ text, c = .text text := by
    rcases hp with rfl | rfl
    all_goals
      cases c with
      | text text => exact ⟨text, rfl⟩
      | _ => cases h
  have hresult {n : Int} (hn : signOf n = a.order b)
      (h : Yields prog (compareTexts prog.leafOrder v w) s (.int n) s) :
      Compares prog (evaluate this (ordinal left right)) s (a.order b) :=
    hn ▸ .of_unchanged (evaluates_ordinal hl hr h)
  cases hv with
  | null _ =>
    cases hw with
    | null _ => exact hresult (n := 0) rfl (Yields.result _ s)
    | scalar hb =>
      obtain ⟨text, rfl⟩ := htext hb
      exact hresult (n := -1) rfl (Yields.result _ s)
  | scalar ha =>
    obtain ⟨text, rfl⟩ := htext ha
    cases hw with
    | null _ => exact hresult (n := 1) rfl (Yields.result _ s)
    | scalar hb =>
      obtain ⟨text', rfl⟩ := htext hb
      exact hresult (horder.texts text text') (Yields.result _ s)

/-- Values of the types that are never `null`. -/
theorem compares_values (horder : prog.leafOrder.Lawful) {p : Primitive} (hp : p.isValueType = true)
    (hv : Denotes prog.registry heap (.scalar p) v a)
    (hw : Denotes prog.registry heap (.scalar p) w b) (hl : Evaluates prog this s left v)
    (hr : Evaluates prog this s right w) :
    Compares prog (evaluate this (.call (.member left "CompareTo") [right])) s (a.order b) := by
  have hnull : (Shape.scalar p).isReferenceType = false := by
    rw [Shape.isReferenceType, hp]
    rfl
  cases hv with
  | null h => cases hnull.symm.trans h
  | scalar ha =>
    cases hw with
    | null h => cases hnull.symm.trans h
    | scalar hb =>
      rw [← horder.values hp ha hb]
      exact .of_unchanged (evaluates_compareTo hl hr (Yields.result _ s))

end

theorem orderRefines_scalar (horder : prog.leafOrder.Lawful) {p : Primitive} (hp : p ≠ .any)
    {v w : Value} {a b : Json} (hv : Denotes prog.registry heap (.scalar p) v a)
    (hw : Denotes prog.registry heap (.scalar p) w b) :
    OrderRefines prog heap (.scalar p) v w a b := by
  refine .intro (Registry.orderValues_of_not_opens _ rfl _)
    fun {this s left right level} hs hzero hl hr => orders_setAndCheck hzero ?_
  cases p with
  | any => exact absurd rfl hp
  | string => exact compares_ordinal horder (Or.inl rfl) hv hw hl.evaluates hr.evaluates
  | uri =>
    exact compares_ordinal horder (Or.inr rfl) hv hw (evaluates_uriText hv hl.evaluates)
      (evaluates_uriText hw hr.evaluates)
  | _ => exact compares_values horder rfl hv hw hl.evaluates hr.evaluates

/-! ## Containers -/

section

variable {this : Value} {s : State} {left right : Expr} {v w : Value} {rest : List Stmt}

/-- A container does not differ from itself. -/
theorem orders_sameContainer (hv : v.isReference = true) (hl : Evaluates prog this s left v)
    (hr : Evaluates prog this s right v) :
    Orders prog (executeAll this (orderedContainers left right rest)) s [] .eq := by
  refine .goesOn [] ?_
  rw [State.grow_nil]
  exact Executes.single (yields_passBy
    (Evaluates.not (.referenceEquals hl hr (yields_sameReference_self hv))))

/-- Two containers that are not the same are looked into. -/
theorem orders_otherContainer (declared : Fields Value) {o : Ordering}
    (hl : Evaluates prog this s left v) (hr : Evaluates prog this s right w)
    (hv : v.isReference = true) (hw : w.isReference = true) (hne : v ≠ w)
    (h : Orders prog (executeAll this
      ([.ifThen left.isNull [.ret (.int (-1))], .ifThen right.isNull [.ret (.int 1)]] ++
        setAndCheck (.call (.member (count left) "CompareTo") [count right]) ++ rest)) s declared o) :
    Orders prog (executeAll this (orderedContainers left right rest)) s [] o :=
  .single (.ifThen (Evaluates.not (.referenceEquals hl hr (yields_sameReference_of_ne hv hw hne))) h)

/-- `null` comes before a container. -/
theorem orders_nullContainer {address : Nat} (hl : Evaluates prog this s left .null)
    (hr : Evaluates prog this s right (.ref address)) :
    Orders prog (executeAll this (orderedContainers left right rest)) s [] .lt := by
  have hleave : Yields prog (execute this (.ifThen left.isNull [.ret (.int (-1))])) s
      (.returned (.int (-1))) s := yields_leaveWith (hl.isNull rfl)
  refine orders_otherContainer [] hl hr rfl rfl nofun ?_
  exact .leaves (Executes.returned hleave _) rfl nofun (List.prefix_refl _)

theorem orders_containerNull {address : Nat} (hl : Evaluates prog this s left (.ref address))
    (hr : Evaluates prog this s right .null) :
    Orders prog (executeAll this (orderedContainers left right rest)) s [] .gt := by
  have hpass : Yields prog (execute this (.ifThen left.isNull [.ret (.int (-1))])) s .next s :=
    yields_passBy (hl.isNull rfl)
  have hleave : Yields prog (execute this (.ifThen right.isNull [.ret (.int 1)])) s
      (.returned (.int 1)) s := yields_leaveWith (hr.isNull rfl)
  refine orders_otherContainer [] hl hr rfl rfl nofun ?_
  exact .leaves (Executes.next hpass (.returned hleave _)) rfl nofun (List.prefix_refl _)

/-- Of two containers the smaller one comes first, and then the elements decide. -/
theorem orders_containers (horder : prog.leafOrder.Lawful) {a b i j : Nat} {o : Ordering}
    (hne : a ≠ b)
    (hzero : Fields.get? s.locals compareResult = some (.int 0))
    (hl : Evaluates prog this s left (.ref a)) (hr : Evaluates prog this s right (.ref b))
    (hi : Evaluates prog this s (count left) (.int i))
    (hj : Evaluates prog this s (count right) (.int j))
    (h : i = j → ∃ declared, Orders prog (executeAll this rest) s declared o) :
    Orders prog (executeAll this (orderedContainers left right rest)) s [] ((compare i j).then o) := by
  have hnull : Executes prog this s
      [.ifThen left.isNull [.ret (.int (-1))], .ifThen right.isNull [.ret (.int 1)]] .next s :=
    .next (yields_passBy (hl.isNull rfl)) (.single (yields_passBy (hr.isNull rfl)))
  have hsizes : Evaluates prog this s (.call (.member (count left) "CompareTo") [count right])
      (.int (prog.leafOrder.counts i j)) := evaluates_compareTo hi hj (Yields.result _ s)
  have hsign := horder.counts i j
  have hother : Value.ref a ≠ .ref b := fun he => hne (Value.ref.inj he)
  by_cases hij : i = j
  · obtain ⟨declared, hrest⟩ := h hij
    rw [Nat.compare_eq_eq.2 hij] at hsign ⊢
    rw [signOf_eq_iff.1 hsign] at hsizes
    refine orders_otherContainer declared hl hr rfl rfl hother ?_
    exact .after_unchanged (hnull.append (executes_setAndCheck_zero hsizes hzero)) hrest
  · have hcompare : compare i j ≠ .eq := fun he => hij (Nat.compare_eq_eq.1 he)
    have hnonzero : prog.leafOrder.counts i j ≠ 0 := fun he =>
      hcompare (hsign.symm.trans (signOf_eq_iff.2 he))
    rw [then_of_ne hcompare]
    -- the elements are not looked at
    refine orders_otherContainer [] hl hr rfl rfl hother ?_
    exact .leaves ((hnull.append (executes_setAndCheck_leave hsizes hzero hnonzero)).append_returned _)
      hsign hcompare (List.prefix_refl _)

end

theorem Heap.object?_of_prefix {heap heap' : Heap} (h : heap <+: heap') {address : Nat} {o : Object}
    (ho : heap.object? address = some o) : heap'.object? address = some o := by
  obtain ⟨ext, rfl⟩ := h
  exact Heap.object?_append ho ext

/-! ## Elements -/

section

variable {this : Value} {s : State} {level : Nat} {v w : Value} {a b : Json}

/-- The local for the result is not hidden. -/
theorem get?_compareResult_push (bases : List String) {xs : Fields Value}
    (hxs : xs.keys = bases.map fun base => numbered base level)
    (hzero : Fields.get? s.locals compareResult = some (.int 0)) :
    Fields.get? (s.push xs).locals compareResult = some (.int 0) := by
  rw [State.get?_push_of_not_mem s, hzero]
  intro hmem
  rw [hxs] at hmem
  obtain ⟨base, -, heq⟩ := List.mem_map.1 hmem
  exact ne_numbered (by decide) base level heq.symm

/-- Elements are ordered under names of their own, or through the expressions for them. -/
theorem orders_withElements {element : Shape} {left right : Expr}
    (h : OrderRefines prog heap element v w a b) (hs : heap <+: s.heap)
    (hzero : Fields.get? s.locals compareResult = some (.int 0))
    (hl : Stable prog this s (elementNames element level ++ orderLocals element (level + 1))
      (fun _ => False) left v)
    (hr : Stable prog this s (elementNames element level ++ orderLocals element (level + 1))
      (fun _ => False) right w) :
    ∃ declared, Orders prog (executeAll this (withElements (isContainer element.comparison) left right
      level fun l r => orderByShape element l r (level + 1))) s declared
      (ranking prog.registry element a b) := by
  unfold elementNames at hl hr
  unfold withElements
  cases hc : isContainer element.comparison with
  | false =>
    rw [hc] at hl hr
    exact ⟨[], h.orders hs hzero hl hr⟩
  | true =>
    rw [hc] at hl hr
    have hne : numbered "left" level ≠ numbered "right" level := fun he =>
      absurd (numbered_inj.1 he).1 (by decide)
    let locals : Fields Value := [(numbered "right" level, w), (numbered "left" level, v)]
    -- the second element is read when the first one has its name already
    have hr' : Evaluates prog this (s.push [(numbered "left" level, v)]) right w :=
      hr _ ((Changed.refl _ _ s).push (by simp))
    have hdeclare : Executes prog this s [.var (numbered "left" level) left,
        .var (numbered "right" level) right] .next ((s.grow []).push locals) := by
      rw [State.grow_nil]
      exact .next (yields_declare hl.evaluates) (.single (yields_declare hr'))
    have hlocals : Fields.get? ((s.grow []).push locals).locals compareResult = some (.int 0) :=
      get?_compareResult_push ["right", "left"] rfl hzero
    refine ⟨_, Orders.after hdeclare (h.orders (hs.trans (s.prefix_grow [])) hlocals ?_ ?_)⟩
    · refine .localOf ?_ (numbered_not_mem_orderLocals _ _ _)
      rw [State.get?_push_cons, if_neg hne, State.get?_push_cons, if_pos rfl]
    · refine .localOf ?_ (numbered_not_mem_orderLocals _ _ _)
      rw [State.get?_push_cons, if_pos rfl]

/-- The number of a turn is not hidden in its body. -/
theorem stable_index {names : List String} (h : numbered "index" level ∉ names) (k : Nat) :
    Stable prog this (s.push [(numbered "index" level, .int k)]) names (fun _ => False)
      (.ident (numbered "index" level)) (.int k) := by
  refine .localOf ?_ h
  rw [State.get?_push_cons, if_pos rfl]

/-- What is read under the names of a comparison can be read in the body of its loop. -/
theorem Stable.inBody {names inner : List String} {e : Expr}
    (hsub : numbered "index" level :: inner ⊆ names)
    (he : Stable prog this s names (fun _ => False) e v) (new : Heap) (k : Nat) :
    Stable prog this ((s.grow new).push [(numbered "index" level, .int k)]) inner (fun _ => False) e
      v := by
  have hchanged : Changed names (fun _ => False) s
      ((s.grow new).push [(numbered "index" level, .int k)]) :=
    ((Changed.refl _ _ s).grow new).push fun _ hmem => hsub (List.mem_cons.2 (Or.inl
      (List.mem_singleton.1 hmem)))
  exact (he.changed hchanged).mono (fun _ hmem => hsub (List.mem_cons_of_mem _ hmem))
    fun _ _ hfalse => hfalse

/-- **One turn of a loop over elements.** -/
theorem orders_turn {element : Shape} {left right : Expr} {k : Nat}
    (h : OrderRefines prog heap element v w a b) (hs : heap <+: s.heap)
    (hzero : Fields.get? s.locals compareResult = some (.int 0))
    (hl : Stable prog this (s.push [(numbered "index" level, .int k)])
      (elementNames element level ++ orderLocals element (level + 1)) (fun _ => False) left v)
    (hr : Stable prog this (s.push [(numbered "index" level, .int k)])
      (elementNames element level ++ orderLocals element (level + 1)) (fun _ => False) right w) :
    Orders prog (block this [(numbered "index" level, .int k)]
      (withElements (isContainer element.comparison) left right level fun l r =>
        orderByShape element l r (level + 1))) s [] (ranking prog.registry element a b) := by
  have hindex : Fields.get? (s.push [(numbered "index" level, .int k)]).locals compareResult =
      some (.int 0) := get?_compareResult_push ["index"] rfl hzero
  obtain ⟨declared, hbody⟩ := orders_withElements (s := s.push _) h hs hindex hl hr
  exact hbody.block

/-- **A loop over the elements of two containers**, which are read by the number of the turn. -/
theorem orders_elementsLoop {element : Shape} {bound left right : Expr}
    {xs ys : List (Value × Json)} (hlen : xs.length = ys.length)
    (h : ∀ q ∈ xs.zip ys, OrderRefines prog heap element q.1.1 q.2.1 q.1.2 q.2.2)
    (hs : heap <+: s.heap) (hzero : Fields.get? s.locals compareResult = some (.int 0))
    (hbound : ∀ new, Evaluates prog this (s.grow new) bound (.int xs.length))
    (hl : ∀ (k : Nat) x, xs[k]? = some x → ∀ new,
      Stable prog this ((s.grow new).push [(numbered "index" level, .int k)])
        (elementNames element level ++ orderLocals element (level + 1)) (fun _ => False) left x.1)
    (hr : ∀ (k : Nat) y, ys[k]? = some y → ∀ new,
      Stable prog this ((s.grow new).push [(numbered "index" level, .int k)])
        (elementNames element level ++ orderLocals element (level + 1)) (fun _ => False) right y.1) :
    Orders prog (execute this (.forBelow (numbered "index" level) bound
      (withElements (isContainer element.comparison) left right level fun l r =>
        orderByShape element l r (level + 1)))) s []
      (firstOf ((xs.zip ys).map fun q => ranking prog.registry element q.1.2 q.2.2)) := by
  refine Orders.imp (fun _ _ => yields_forBelowTo) (below_orders hbound ?_ ?_)
  · rw [List.length_map, List.length_zip, ← hlen]
    omega
  intro k o hk new
  rw [List.getElem?_map, Option.map_eq_some_iff] at hk
  obtain ⟨q, hq, rfl⟩ := hk
  have hrefines := h q (List.mem_of_getElem? hq)
  rw [List.getElem?_zip_eq_some] at hq
  rw [Nat.zero_add]
  exact orders_turn hrefines (hs.trans (s.prefix_grow new)) hzero (hl k _ hq.1 new) (hr k _ hq.2 new)

end

/-! ## Lists -/

theorem evaluates_countItems {this : Value} {s : State} {e : Expr} {address : Nat}
    {items : List (Value × Json)}
    (ho : s.heap.object? address = some (.list (items.map Prod.fst)))
    (he : Evaluates prog this s e (.ref address)) :
    Evaluates prog this s (count e) (.int items.length) := by
  have hcount := Evaluates.member he (yields_count_list ho)
  rwa [List.length_map] at hcount

/-- The loop over two lists of one length. -/
theorem orders_listLoop {this : Value} {s : State} {left right : Expr} {level i j : Nat}
    {element : Shape} {items items' : List (Value × Json)}
    (h : ∀ q ∈ items.zip items', OrderRefines prog heap element q.1.1 q.2.1 q.1.2 q.2.2)
    (hs : heap <+: s.heap) (hzero : Fields.get? s.locals compareResult = some (.int 0))
    (hx : s.heap.object? i = some (.list (items.map Prod.fst)))
    (hy : s.heap.object? j = some (.list (items'.map Prod.fst)))
    (hlen : items.length = items'.length)
    (hl : Stable prog this s (orderLocals (.array element) level) (fun _ => False) left (.ref i))
    (hr : Stable prog this s (orderLocals (.array element) level) (fun _ => False) right (.ref j)) :
    Orders prog (execute this (.forBelow (numbered "index" level) (count left)
      (withElements (isContainer element.comparison) (.index left (.ident (numbered "index" level)))
        (.index right (.ident (numbered "index" level))) level fun l r =>
          orderByShape element l r (level + 1)))) s []
      (firstOf ((items.zip items').map fun q => ranking prog.registry element q.1.2 q.2.2)) := by
  have hposition : numbered "index" level ∉
      elementNames element level ++ orderLocals element (level + 1) :=
    numbered_not_mem_inner (by decide) (by decide) element level
  -- the index is one of the locals that the two lists are read under
  have hitem {e : Expr} {address : Nat} {l : List (Value × Json)}
      (he : Stable prog this s (orderLocals (.array element) level) (fun _ => False) e (.ref address))
      (ho : s.heap.object? address = some (.list (l.map Prod.fst))) (k : Nat) (x : Value × Json)
      (hx : l[k]? = some x) (new : Heap) :
      Stable prog this ((s.grow new).push [(numbered "index" level, .int k)])
        (elementNames element level ++ orderLocals element (level + 1)) (fun _ => False)
        (.index e (.ident (numbered "index" level))) x.1 := by
    refine (he.inBody (List.Subset.refl _) new k).index (stable_index hposition k) not_false
      (Heap.object?_append ho new) fun u hu => yields_item hu ?_
    rw [List.getElem?_map, hx]
    rfl
  refine orders_elementsLoop hlen h hs hzero (fun new => ?_) (hitem hl hx) (hitem hr hy)
  exact evaluates_countItems (Heap.object?_append hx new) (hl _ ((Changed.refl _ _ s).grow new))

/-- **Lists.** -/
theorem orderRefines_list (hr : prog.registry.EvaluatesByShape) (horder : prog.leafOrder.Lawful)
    {element : Shape} {address : Nat} {items : List (Value × Json)}
    (ho : heap.object? address = some (.list (items.map Prod.fst)))
    (hd : ∀ q ∈ items, Denotes prog.registry heap element q.1 q.2)
    (ih : ∀ q ∈ items, ∀ {w : Value} {b : Json}, Denotes prog.registry heap element w b →
      OrderRefines prog heap element q.1 w q.2 b)
    {w : Value} {b : Json} (hw : Denotes prog.registry heap (.array element) w b) :
    OrderRefines prog heap (.array element) (.ref address) w (.list (items.map Prod.snd)) b := by
  cases hw with
  | null _ =>
    exact .intro rfl fun hs hzero hl hr => orders_containerNull hl.evaluates hr.evaluates
  | @list _ address' items' ho' hd' =>
    by_cases haddress : address = address'
    -- the same list is skipped, but the evaluator has looked into it
    · subst haddress
      have hsame := (Denotes.list items ho hd).order_eq hr (.list items' ho' hd')
      exact .intro hsame fun hs hzero hl hr => orders_sameContainer rfl hl.evaluates hr.evaluates
    have hstep (q) (hq : q ∈ items.zip items') :
        OrderRefines prog heap element q.1.1 q.2.1 q.1.2 q.2.2 :=
      ih q.1 (List.of_mem_zip hq).1 (hd' q.2 (List.of_mem_zip hq).2)
    refine .intro (o := (compare items.length items'.length).then (firstOf ((items.zip items').map
      fun q => ranking prog.registry element q.1.2 q.2.2))) ?_
      fun {this s left right level} hs hzero hl hr => ?_
    · rw [Shape.comparison, Registry.orderValues_sequence, List.length_map, List.length_map,
        List.zip_map, firstUnequal_map, ← thenOk_ok]
      exact congrArg _ (firstUnequal_eq_firstOf fun q hq => (hstep q hq).evaluates)
    · have hx := Heap.object?_of_prefix hs ho
      have hy := Heap.object?_of_prefix hs ho'
      exact orders_containers horder haddress hzero hl.evaluates hr.evaluates
        (evaluates_countItems hx hl.evaluates) (evaluates_countItems hy hr.evaluates)
        fun hlen => ⟨[], .single (orders_listLoop hstep hs hzero hx hy hlen hl hr)⟩

/-! ## Maps -/

section

variable {this : Value} {s : State} {left right : Expr} {level i j x y : Nat} {element : Shape}
  {entries entries' : Fields (Value × Json)}

theorem sortedKeys_mapValues {α β : Type} (f : α → β) (fields : Fields α) :
    sortedKeys (fields.mapValues f) = sortedKeys fields := by
  rw [sortedKeys, Fields.sorted_mapValues, Fields.keys_mapValues]
  rfl

theorem length_keys_sorted {α : Type} (fields : Fields α) :
    (Fields.sorted fields).keys.length = fields.length := by
  rw [Fields.keys, List.length_map, (Fields.perm_sorted fields).length_eq]

/-- The sorted keys of two maps lie in lists of their own, and there are locals for the lists. -/
structure KeysReady (s : State) (level x y : Nat) (entries entries' : Fields (Value × Json)) :
    Prop where
  zero : Fields.get? s.locals compareResult = some (.int 0)
  left : Fields.get? s.locals (numbered "left_keys" level) = some (.ref x)
  right : Fields.get? s.locals (numbered "right_keys" level) = some (.ref y)
  leftKeys : s.heap.object? x = some (.list (sortedKeys entries))
  rightKeys : s.heap.object? y = some (.list (sortedKeys entries'))

theorem KeysReady.grow (h : KeysReady s level x y entries entries') (new : Heap) :
    KeysReady (s.grow new) level x y entries entries' where
  zero := h.zero
  left := h.left
  right := h.right
  leftKeys := Heap.object?_append h.leftKeys new
  rightKeys := Heap.object?_append h.rightKeys new

theorem KeysReady.evaluates_count (h : KeysReady s level x y entries entries') :
    Evaluates prog this s (count (.ident (numbered "left_keys" level))) (.int entries.length) := by
  have hcount : Evaluates prog this s (count (.ident (numbered "left_keys" level)))
      (.int (sortedKeys entries).length) := .member (.localOf h.left) (yields_count_list h.leftKeys)
  rwa [sortedKeys, List.length_map, length_keys_sorted] at hcount

theorem stable_keyAt {names : List String} {keys : String} {k : Nat} {key : String} {α : Type}
    {fields : Fields α} (hne : keys ≠ "index") (hkeys : numbered keys level ∉ names)
    (hindex : numbered "index" level ∉ names)
    (hget : Fields.get? s.locals (numbered keys level) = some (.ref x))
    (ho : s.heap.object? x = some (.list (sortedKeys fields)))
    (hk : (Fields.sorted fields).keys[k]? = some key) :
    Stable prog this (s.push [(numbered "index" level, .int k)]) names (fun _ => False)
      (keyAt keys level) (.leaf (.text key)) := by
  have hlist : Stable prog this (s.push [(numbered "index" level, .int k)]) names (fun _ => False)
      (.ident (numbered keys level)) (.ref x) := by
    refine .localOf ?_ hkeys
    rw [State.get?_push_cons, if_neg fun he => hne (numbered_inj.1 he).1, State.get?_push_nil, hget]
  refine hlist.index (stable_index hindex k) not_false ho fun t ht => yields_item ht ?_
  rw [sortedKeys, List.getElem?_map, hk]
  rfl

/-- The loop over the keys of two maps of one size. -/
theorem orders_keysLoop (horder : prog.leafOrder.Lawful)
    (h : KeysReady s level x y entries entries') (hlen : entries.length = entries'.length) :
    Orders prog (execute this (.forBelow (numbered "index" level)
      (count (.ident (numbered "left_keys" level)))
      (setAndCheck (ordinal (keyAt "left_keys" level) (keyAt "right_keys" level))))) s []
      (orderKeys (Fields.sorted entries).keys (Fields.sorted entries').keys) := by
  rw [orderKeys_eq_firstOf (by rw [length_keys_sorted, length_keys_sorted, hlen])]
  refine Orders.imp (fun _ _ => yields_forBelowTo)
    (below_orders (fun new => (h.grow new).evaluates_count) ?_ ?_)
  · rw [List.length_map, List.length_zip, length_keys_sorted, length_keys_sorted, ← hlen]
    omega
  intro k o hk new
  rw [List.getElem?_map, Option.map_eq_some_iff] at hk
  obtain ⟨⟨key, key'⟩, hq, rfl⟩ := hk
  rw [List.getElem?_zip_eq_some] at hq
  rw [Nat.zero_add]
  have hready := h.grow new
  refine Orders.block (orders_setAndCheck (get?_compareResult_push ["index"] rfl hready.zero) ?_)
  rw [← horder.texts key key']
  let t := (s.grow new).push [(numbered "index" level, .int k)]
  have hleft : Evaluates prog this t (keyAt "left_keys" level) (.leaf (.text key)) :=
    Stable.evaluates (stable_keyAt (by decide) List.not_mem_nil List.not_mem_nil hready.left
      hready.leftKeys hq.1)
  have hright : Evaluates prog this t (keyAt "right_keys" level) (.leaf (.text key')) :=
    Stable.evaluates (stable_keyAt (by decide) List.not_mem_nil List.not_mem_nil hready.right
      hready.rightKeys hq.2)
  exact .of_unchanged (evaluates_ordinal hleft hright (Yields.result _ t))

theorem exists_key_of_getElem?_values {α : Type} {fields : Fields α} {k : Nat} {value : α}
    (h : fields.values[k]? = some value) :
    ∃ key, fields.keys[k]? = some key ∧ (key, value) ∈ fields := by
  rw [Fields.values, List.getElem?_map, Option.map_eq_some_iff] at h
  obtain ⟨⟨key, _⟩, hk, rfl⟩ := h
  refine ⟨key, ?_, List.mem_of_getElem? hk⟩
  rw [Fields.keys, List.getElem?_map, hk]
  rfl

/-- The entry of a sorted key. -/
theorem get?_of_sorted {key : String} {q : Value × Json} (hk : entries.keys.Nodup)
    (h : (key, q) ∈ Fields.sorted entries) :
    (entries.mapValues Prod.fst).get? key = some q.1 := by
  rw [Fields.get?_mapValues, Fields.get?_of_mem hk ((Fields.perm_sorted entries).mem_iff.1 h)]
  rfl

/-- The loop over the values of two maps of one size, in the order of their keys. -/
theorem orders_valuesLoop
    (h : ∀ q ∈ (Fields.sorted entries).values.zip (Fields.sorted entries').values,
      OrderRefines prog heap element q.1.1 q.2.1 q.1.2 q.2.2)
    (hs : heap <+: s.heap) (hready : KeysReady s level x y entries entries')
    (hx : s.heap.object? i = some (.dictionary (entries.mapValues Prod.fst)))
    (hy : s.heap.object? j = some (.dictionary (entries'.mapValues Prod.fst)))
    (hk : entries.keys.Nodup) (hk' : entries'.keys.Nodup) (hlen : entries.length = entries'.length)
    (hl : Stable prog this s (orderLocals (.map element) level) (fun _ => False) left (.ref i))
    (hr : Stable prog this s (orderLocals (.map element) level) (fun _ => False) right (.ref j)) :
    Orders prog (execute this (.forBelow (numbered "index" level)
      (count (.ident (numbered "left_keys" level)))
      (withElements (isContainer element.comparison) (.index left (keyAt "left_keys" level))
        (.index right (keyAt "right_keys" level)) level fun l r =>
          orderByShape element l r (level + 1)))) s []
      (firstOf (((Fields.sorted entries).values.zip (Fields.sorted entries').values).map fun q =>
        ranking prog.registry element q.1.2 q.2.2)) := by
  have hinner {base : String} (hl : base ≠ "left") (hr : base ≠ "right") :=
    numbered_not_mem_inner hl hr element level
  have hnames : numbered "index" level :: (elementNames element level ++
      orderLocals element (level + 1)) ⊆ orderLocals (.map element) level := fun _ hmem =>
    List.mem_cons_of_mem _ (List.mem_cons_of_mem _ hmem)
  have hposition : numbered "index" level ∉ _ := hinner (by decide) (by decide)
  refine orders_elementsLoop ?_ h hs hready.zero (fun new => ?_) (fun k q hq new => ?_)
    fun k q hq new => ?_
  · rw [Fields.length_values_sorted, Fields.length_values_sorted, hlen]
  · rw [Fields.length_values_sorted]
    exact (hready.grow new).evaluates_count
  · obtain ⟨key, hkey, hmem⟩ := exists_key_of_getElem?_values hq
    refine (hl.inBody hnames new k).index ?_ not_false (Heap.object?_append hx new)
      fun u hu => yields_entry hu (get?_of_sorted hk hmem)
    exact stable_keyAt (by decide) (hinner (by decide) (by decide)) hposition hready.left
      (Heap.object?_append hready.leftKeys new) hkey
  · obtain ⟨key, hkey, hmem⟩ := exists_key_of_getElem?_values hq
    refine (hr.inBody hnames new k).index ?_ not_false (Heap.object?_append hy new)
      fun u hu => yields_entry hu (get?_of_sorted hk' hmem)
    exact stable_keyAt (by decide) (hinner (by decide) (by decide)) hposition hready.right
      (Heap.object?_append hready.rightKeys new) hkey

theorem evaluates_countEntries {e : Expr} (ho : s.heap.object? i = some
    (.dictionary (entries.mapValues Prod.fst))) (he : Evaluates prog this s e (.ref i)) :
    Evaluates prog this s (count e) (.int entries.length) := by
  have hcount := Evaluates.member he (yields_count_dictionary ho)
  rwa [Fields.mapValues, List.length_map] at hcount

/-- Before the loops the keys of both maps are sorted. -/
theorem orders_afterKeys (horder : prog.leafOrder.Lawful) {rest : List Stmt} {o : Ordering}
    (hx : s.heap.object? i = some (.dictionary (entries.mapValues Prod.fst)))
    (hy : s.heap.object? j = some (.dictionary (entries'.mapValues Prod.fst)))
    (hzero : Fields.get? s.locals compareResult = some (.int 0))
    (hl : Stable prog this s (orderLocals (.map element) level) (fun _ => False) left (.ref i))
    (hr : Stable prog this s (orderLocals (.map element) level) (fun _ => False) right (.ref j))
    (h : ∀ t, Changed (orderLocals (.map element) level) (fun _ => False) s t → s.heap <+: t.heap →
      KeysReady t level s.heap.length (s.heap.length + 1) entries entries' →
      Orders prog (executeAll this rest) t [] o) :
    ∃ declared, Orders prog (executeAll this ([.var (numbered "left_keys" level) (keyList left),
      sortKeys (numbered "left_keys" level), .var (numbered "right_keys" level) (keyList right),
      sortKeys (numbered "right_keys" level)] ++ rest)) s declared o := by
  let x := s.heap.length
  let keys : Fields Value := [(numbered "right_keys" level, .ref (x + 1)),
    (numbered "left_keys" level, .ref x)]
  let lists : Heap := [⟨.list (sortedKeys entries), 1⟩, ⟨.list (sortedKeys entries'), 1⟩]
  let t := (s.grow lists).push keys
  have hne : numbered "left_keys" level ≠ numbered "right_keys" level := fun he =>
    absurd (numbered_inj.1 he).1 (by decide)
  -- the second map is read when the first one has its list of keys already
  let u := (s.grow [⟨.list (sortedKeys entries), 1⟩]).push [(numbered "left_keys" level, .ref x)]
  have hu : Changed (orderLocals (.map element) level) (fun _ => False) s u :=
    ((Changed.refl _ _ s).grow _).push fun _ hmem => List.mem_cons.2 (Or.inl
      (List.mem_singleton.1 hmem))
  have hfirst : Executes prog this s [.var (numbered "left_keys" level) (keyList left),
      sortKeys (numbered "left_keys" level)] .next u := by
    have hsorted := executes_sortedKeys horder (numbered "left_keys" level) hl.evaluates hx
    rwa [sortedKeys_mapValues] at hsorted
  have hsecond : Executes prog this u [.var (numbered "right_keys" level) (keyList right),
      sortKeys (numbered "right_keys" level)] .next t := by
    have hsorted := executes_sortedKeys horder (numbered "right_keys" level) (hr u hu)
      (hu.object? hy not_false)
    have hlength : u.heap.length = x + 1 := List.length_append
    rwa [sortedKeys_mapValues, hlength, State.grow_push, State.push_push, State.grow_grow] at hsorted
  have hready : KeysReady t level x (x + 1) entries entries' := by
    refine ⟨get?_compareResult_push ["right_keys", "left_keys"] rfl hzero, ?_, ?_, ?_, ?_⟩
    · rw [State.get?_push_cons, if_neg hne, State.get?_push_cons, if_pos rfl]
    · rw [State.get?_push_cons, if_pos rfl]
    · simp [t, x, lists, State.push, State.grow, Heap.object?]
    · simp [t, x, lists, State.push, State.grow, Heap.object?]
  have ht : Changed (orderLocals (.map element) level) (fun _ => False) s t := by
    refine ((Changed.refl _ _ s).grow lists).push fun name hname => ?_
    rcases List.mem_cons.1 hname with rfl | hname
    · exact List.mem_cons_of_mem _ List.mem_cons_self
    · exact List.mem_cons.2 (Or.inl (List.mem_singleton.1 hname))
  exact ⟨_, Orders.after (hfirst.append hsecond) (h t ht (s.prefix_grow lists) hready)⟩

end

/-- **Maps.** -/
theorem orderRefines_map (hr : prog.registry.EvaluatesByShape) (horder : prog.leafOrder.Lawful)
    {element : Shape} {address : Nat} {entries : Fields (Value × Json)} (hk : entries.keys.Nodup)
    (ho : heap.object? address = some (.dictionary (entries.mapValues Prod.fst)))
    (hd : ∀ e ∈ entries, Denotes prog.registry heap element e.2.1 e.2.2)
    (ih : ∀ e ∈ entries, ∀ {w : Value} {b : Json}, Denotes prog.registry heap element w b →
      OrderRefines prog heap element e.2.1 w e.2.2 b)
    {w : Value} {b : Json} (hw : Denotes prog.registry heap (.map element) w b) :
    OrderRefines prog heap (.map element) (.ref address) w (.object (entries.mapValues Prod.snd))
      b := by
  cases hw with
  | null _ =>
    exact .intro rfl fun hs hzero hl hr => orders_containerNull hl.evaluates hr.evaluates
  | @map _ address' entries' hk' ho' hd' =>
    by_cases haddress : address = address'
    -- the same map is skipped, but the evaluator has looked into it
    · subst haddress
      have hsame := (Denotes.map entries hk ho hd).order_eq hr (.map entries' hk' ho' hd')
      exact .intro hsame fun hs hzero hl hr => orders_sameContainer rfl hl.evaluates hr.evaluates
    have hstep (q) (hq : q ∈ (Fields.sorted entries).values.zip (Fields.sorted entries').values) :
        OrderRefines prog heap element q.1.1 q.2.1 q.1.2 q.2.2 := by
      obtain ⟨hmem, hmem'⟩ := List.of_mem_zip hq
      obtain ⟨e, he, hvalue⟩ := List.mem_map.1 hmem
      obtain ⟨e', he', hvalue'⟩ := List.mem_map.1 hmem'
      rw [← hvalue, ← hvalue']
      exact ih e ((Fields.perm_sorted entries).mem_iff.1 he)
        (hd' e' ((Fields.perm_sorted entries').mem_iff.1 he'))
    refine .intro (o := (compare entries.length entries'.length).then
      ((orderKeys (Fields.sorted entries).keys (Fields.sorted entries').keys).then
        (firstOf (((Fields.sorted entries).values.zip (Fields.sorted entries').values).map fun q =>
          ranking prog.registry element q.1.2 q.2.2)))) ?_
      fun {this s left right level} hs hzero hl hr => ?_
    · rw [Shape.comparison, Registry.orderValues_unordered, Fields.sorted_mapValues,
        Fields.sorted_mapValues, Fields.keys_mapValues, Fields.keys_mapValues,
        Fields.values_mapValues, Fields.values_mapValues, List.zip_map, firstUnequal_map,
        ← Ordering.then_assoc, ← thenOk_ok, Fields.mapValues, Fields.mapValues, List.length_map,
        List.length_map]
      exact congrArg _ (firstUnequal_eq_firstOf fun q hq => (hstep q hq).evaluates)
    · have hx := Heap.object?_of_prefix hs ho
      have hy := Heap.object?_of_prefix hs ho'
      refine orders_containers horder haddress hzero hl.evaluates hr.evaluates
        (evaluates_countEntries hx hl.evaluates) (evaluates_countEntries hy hr.evaluates)
        fun hlen => orders_afterKeys horder hx hy hzero hl hr fun t ht hheap hready => ?_
      refine .cons (orders_keysLoop horder hready hlen) fun _ new => ?_
      exact .single (orders_valuesLoop hstep ((hs.trans hheap).trans (t.prefix_grow new))
        (hready.grow new) (Heap.object?_append (ht.object? hx not_false) new)
        (Heap.object?_append (ht.object? hy not_false) new) hk hk' hlen
        (hl.changed (ht.grow new)) (hr.changed (ht.grow new)))

end Machine

end Classwright
