import Classwright.Proofs.Emit.Names
import Classwright.Proofs.Instance.Hash
import Classwright.Proofs.Machine.Owned

/-!
# Generated hashes are hashes of instances

`GetHashCode` of a class, run on a heap, returns for an object what the evaluator says of the tree it
stands for. The evaluator takes one value after another into a hash; generated code has a local for
that, and inside of a map two more locals for each level: one for the entry and one for the sum.

## The architecture

* **`HashRefines`** — what is to be shown of a value that stands for a tree: the evaluator takes the
  tree into every hash, and the statements do the same to the local that they are given. No other
  local changes, and nothing in the heap does.
* **`yields_foldInto`** — the one statement that all hashing comes down to. Numbers of 32 bits wrap
  around alike on both sides.
* **`hashLocals`** — the locals of a level. The local that is folded into is none of them, and the
  expression for the value keeps its value while they change (`Stable`).
* **`hashRefines_scalar`**, **`hashRefines_list`**, **`hashRefines_map`**, **`hashRefines_object`** — one
  result for each kind of value; the two loops have their invariants there.
* **`Denotes.hashRefines`** — the induction over what a value stands for.
-/

namespace Classwright

open Code Emit

/-- A loop whose steps succeed is a fold. -/
theorem foldlM_eq_foldl {α β ε : Type} {f : β → α → Except ε β} {g : β → α → β} {l : List α}
    (h : ∀ x ∈ l, ∀ acc, f acc x = .ok (g acc x)) (acc : β) :
    l.foldlM f acc = .ok (l.foldl g acc) := by
  induction l generalizing acc with
  | nil => rfl
  | cons x l ih =>
    rw [List.foldlM_cons, h x List.mem_cons_self acc, List.foldl_cons]
    exact ih (fun y hy => h y (List.mem_cons_of_mem _ hy)) _

namespace Machine

variable {prog : Program} {heap : Heap}

/-! ## Locals of the hash -/

/-- The locals that hashing a value declares. -/
def hashLocals : Comparison → Nat → List String
  | .sequence inner, level => numbered "item" level :: hashLocals inner (level + 1)
  | .unordered inner, level =>
    numbered "sum" level :: numbered "entry" level :: numbered "entry_hash" level ::
      hashLocals inner (level + 1)
  | _, _ => []

theorem level_of_mem_hashLocals {comparison : Comparison} {level : Nat} {name : String}
    (h : name ∈ hashLocals comparison level) : ∃ base k, level ≤ k ∧ name = numbered base k := by
  induction comparison generalizing level with
  | sequence inner ih =>
    rcases List.mem_cons.1 h with rfl | h
    · exact ⟨_, level, Nat.le_refl _, rfl⟩
    · obtain ⟨base, k, hk, rfl⟩ := ih h
      exact ⟨base, k, Nat.le_of_succ_le hk, rfl⟩
  | unordered inner ih =>
    simp only [hashLocals, List.mem_cons] at h
    rcases h with rfl | rfl | rfl | h
    · exact ⟨_, level, Nat.le_refl _, rfl⟩
    · exact ⟨_, level, Nat.le_refl _, rfl⟩
    · exact ⟨_, level, Nat.le_refl _, rfl⟩
    · obtain ⟨base, k, hk, rfl⟩ := ih h
      exact ⟨base, k, Nat.le_of_succ_le hk, rfl⟩
  | value => cases h
  | structural name => cases h
  | custom comparer => cases h

/-- Deeper levels do not declare a local again. -/
theorem numbered_not_mem_hashLocals (base : String) (comparison : Comparison) (level : Nat) :
    numbered base level ∉ hashLocals comparison (level + 1) := by
  intro h
  obtain ⟨_, k, hk, heq⟩ := level_of_mem_hashLocals h
  exact absurd (numbered_inj.1 heq).2 (Nat.ne_of_lt hk)

/-- The locals of the hash are among those that its statements declare. -/
theorem hashLocals_subset_declared (acc : String) (value : Expr) (comparison : Comparison)
    (shape : Shape) (level : Nat) :
    hashLocals comparison level ⊆
      Stmt.declaredAll (hashStatements acc value comparison shape level) := by
  induction comparison generalizing acc value shape level with
  | sequence inner ih =>
    intro name h
    rcases List.mem_cons.1 h with rfl | h
    · simp [hashStatements, Stmt.ifThen, Stmt.declaredAll, Stmt.declared]
    · have hinner := ih acc (.ident (numbered "item" level)) shape.element (level + 1) h
      simp [hashStatements, Stmt.ifThen, Stmt.declaredAll, Stmt.declared, hinner]
  | unordered inner ih =>
    intro name h
    simp only [hashLocals, List.mem_cons] at h
    rcases h with rfl | rfl | rfl | h
    · simp [hashStatements, Stmt.ifThen, Stmt.declaredAll, Stmt.declared]
    · simp [hashStatements, Stmt.ifThen, Stmt.declaredAll, Stmt.declared]
    · simp [hashStatements, Stmt.ifThen, Stmt.declaredAll, Stmt.declared]
    · have hinner := ih (numbered "entry_hash" level)
        (.member (.ident (numbered "entry" level)) "Value") shape.element (level + 1) h
      simp [hashStatements, Stmt.ifThen, Stmt.declaredAll, Stmt.declared, Stmt.declaredAll_append,
        hinner]
  | value => exact List.nil_subset _
  | structural name => exact List.nil_subset _
  | custom comparer => exact List.nil_subset _

/-! ## What is to be shown -/

/-- What the evaluator makes of a hash when it takes a tree of a shape into it. -/
def folded (prog : Program) (shape : Shape) (a : Json) (acc : Int32) : Int32 :=
  match prog.registry.hashInto prog.leafHash a shape.comparison shape acc with
  | .ok n => n
  | .error _ => acc

/-- The evaluator takes a tree into every hash, and the statements for a value that stands for it do
the same to a local. -/
structure HashRefines (prog : Program) (heap : Heap) (shape : Shape) (v : Value) (a : Json) :
    Prop where
  evaluates (acc : Int32) : prog.registry.hashInto prog.leafHash a shape.comparison shape acc =
    .ok (folded prog shape a acc)
  executes {this : Value} {s : State} {name : String} {value : Expr} {level : Nat} {acc : Int32}
    (hs : s.heap = heap) (hacc : Fields.get? s.locals name = some (.int acc.toInt))
    (hname : name ∉ hashLocals shape.comparison level)
    (hv : Stable prog this s (name :: hashLocals shape.comparison level) (fun _ => False) value v) :
    Executes prog this s (hashStatements name value shape.comparison shape level) .next
      (s.set name (.int (folded prog shape a acc).toInt))

theorem HashRefines.intro {shape : Shape} {v : Value} {a : Json} {f : Int32 → Int32}
    (he : ∀ acc, prog.registry.hashInto prog.leafHash a shape.comparison shape acc =
      .ok (f acc))
    (hx : ∀ {this : Value} {s : State} {name : String} {value : Expr} {level : Nat} {acc : Int32},
      s.heap = heap → Fields.get? s.locals name = some (.int acc.toInt) →
      name ∉ hashLocals shape.comparison level →
      Stable prog this s (name :: hashLocals shape.comparison level) (fun _ => False) value v →
      Executes prog this s (hashStatements name value shape.comparison shape level) .next
        (s.set name (.int (f acc).toInt))) :
    HashRefines prog heap shape v a := by
  have hfold (acc : Int32) : folded prog shape a acc = f acc := by
    rw [folded, he acc]
  exact ⟨fun acc => (hfold acc).symm ▸ he acc, fun hs hacc hname hv => by
    rw [hfold]
    exact hx hs hacc hname hv⟩

/-! ## Numbers of 32 bits -/

theorem wrap_mul (a b : Int32) : wrap (a.toInt * b.toInt) = (a * b).toInt := by
  rw [wrap, Int32.ofInt_mul, Int32.ofInt_toInt, Int32.ofInt_toInt]

theorem wrap_add (a b : Int32) : wrap (a.toInt + b.toInt) = (a + b).toInt := by
  rw [wrap, Int32.ofInt_add, Int32.ofInt_toInt, Int32.ofInt_toInt]

section

variable {this : Value} {s : State}

theorem evaluates_multiply {left right : Expr} {a b : Int32}
    (ha : Evaluates prog this s left (.int a.toInt))
    (hb : Evaluates prog this s right (.int b.toInt)) :
    Evaluates prog this s (.binary left .multiply right) (.int (a * b).toInt) := by
  refine yields_evaluate ?_
  rw [← wrap_mul]
  exact Yields.bind ha (Yields.bind hb (Yields.result _ s))

theorem evaluates_add {left right : Expr} {a b : Int32}
    (ha : Evaluates prog this s left (.int a.toInt))
    (hb : Evaluates prog this s right (.int b.toInt)) :
    Evaluates prog this s (.binary left .add right) (.int (a + b).toInt) := by
  refine yields_evaluate ?_
  rw [← wrap_add]
  exact Yields.bind ha (Yields.bind hb (Yields.result _ s))

/-- **A part is taken into a local as it is taken into a hash.** -/
theorem yields_foldInto {name : String} {hash : Expr} {acc n : Int32}
    (hacc : Fields.get? s.locals name = some (.int acc.toInt))
    (hhash : Evaluates prog this s hash (.int n.toInt)) :
    Yields prog (execute this (foldInto name hash)) s .next
      (s.set name (.int (foldHash acc n).toInt)) :=
  yields_assignLocal (evaluates_add (evaluates_multiply (.localOf hacc) (evaluates_int _)) hhash) hacc

theorem evaluates_hashCode {value : Expr} {v : Value} {n : Int} (hv : Evaluates prog this s value v)
    (hn : Yields prog (callMethod prog v "GetHashCode" []) s (.int n) s) :
    Evaluates prog this s (hashCode value) (.int n) := by
  refine yields_evaluate ?_
  show Yields prog (call prog this (Call.of (.member value "GetHashCode") [])) s _ s
  rw [show Call.of (.member value "GetHashCode") [] = .method value "GetHashCode" [] by
    simp [Call.of]]
  exact Yields.bind hv (Yields.bind (Yields.result [] s) hn)

theorem evaluates_leafHash {value : Expr} {a : Json} (hv : Evaluates prog this s value (.leaf a)) :
    Evaluates prog this s (hashCode value) (.int (a.hash prog.leafHash).toInt) :=
  evaluates_hashCode hv (Yields.result _ s)

/-- A value that is not `null` is taken into a local. -/
theorem executes_foldUnlessNull {name : String} {value hash : Expr} {v : Value} {acc n : Int32}
    (hacc : Fields.get? s.locals name = some (.int acc.toInt)) (hv : Evaluates prog this s value v)
    (htest : v.isTestable = true) (hnull : v.isNull = false)
    (hhash : Evaluates prog this s hash (.int n.toInt)) :
    Executes prog this s (foldUnlessNull name value hash) .next
      (s.set name (.int (foldHash acc n).toInt)) := by
  refine executes_unlessNull hv htest (fun h => absurd (h.symm.trans hnull) nofun) fun _ => ?_
  have hbody : Executes prog this s [foldInto name hash] .next
      (s.set name (.int (foldHash acc n).toInt)) := .single (yields_foldInto hacc hhash)
  exact yields_blockTo [] hbody (State.length_set hacc _)

end

/-! ## What is `null`, and scalars -/

theorem hashStatements_guarded {shape : Shape} (h : shape.isReferenceType = true) (name : String)
    (value : Expr) (level : Nat) :
    ∃ yes, hashStatements name value shape.comparison shape level =
      [.ifThen value.isNotNull yes] := by
  cases shape with
  | scalar p =>
    rw [Shape.comparison, hashStatements, h]
    simp only [Bool.not_true, Bool.false_eq_true, if_false]
    split
    · exact ⟨_, rfl⟩
    · exact ⟨_, rfl⟩
  | ofClass name => exact ⟨_, rfl⟩
  | array element => exact ⟨_, rfl⟩
  | map element => exact ⟨_, rfl⟩

theorem hashInto_null {shape : Shape} (h : shape.isReferenceType = true) (acc : Int32) :
    prog.registry.hashInto prog.leafHash .null shape.comparison shape acc = .ok acc := by
  rw [Registry.hashInto_eq]
  cases shape with
  | scalar p => simp [Registry.hashStep, Registry.hashNull, Shape.comparison, h]
  | _ => rfl

theorem hashRefines_null {shape : Shape} (h : shape.isReferenceType = true) :
    HashRefines prog heap shape .null .null := by
  refine .intro (f := id) (hashInto_null h) fun {this s name value level acc} hs hacc hname hv => ?_
  obtain ⟨yes, hyes⟩ := hashStatements_guarded h name value level
  rw [hyes, id, State.set_self hacc]
  exact executes_unlessNull hv.evaluates rfl (fun _ => rfl) fun hnull => absurd hnull Bool.noConfusion

theorem hashRefines_scalar {p : Primitive} {a : Json} (ha : p.accepts a = true) :
    HashRefines prog heap (.scalar p) (.leaf a) a := by
  have hnull : a.isNull = false := by
    cases a with
    | null => cases p <;> cases ha
    | _ => rfl
  refine .intro (fun acc => Registry.hashInto_of_not_opens _ _ hnull rfl _ acc)
    fun {this s name value level acc} hs hacc hname hv => ?_
  have hleaf := evaluates_leafHash hv.evaluates
  rw [Shape.comparison, hashStatements]
  split
  · exact .single (yields_foldInto hacc hleaf)
  split
  · next huri =>
    -- a URI is hashed by its text, which is all there is to it
    cases huri
    cases a with
    | text t =>
      exact executes_foldUnlessNull hacc hv.evaluates rfl rfl
        (evaluates_leafHash (.member hv.evaluates (Yields.result _ s)))
    | _ => cases ha
  · exact executes_foldUnlessNull hacc hv.evaluates rfl rfl hleaf

/-! ## Lists -/

/-- One turn of the loop over a list. -/
theorem yields_hashItem {this : Value} {s : State} {name : String} {element : Shape} {level : Nat}
    {v : Value} {a : Json} {acc : Int32} (h : HashRefines prog s.heap element v a)
    (hacc : Fields.get? s.locals name = some (.int acc.toInt))
    (hname : name ∉ hashLocals (.sequence element.comparison) level) :
    Yields prog (block this [(numbered "item" level, v)]
      (hashStatements name (.ident (numbered "item" level)) element.comparison element (level + 1)))
      s .next (s.set name (.int (folded prog element a acc).toInt)) := by
  obtain ⟨hitem, hdeeper⟩ := not_or.1 fun hmem => hname (List.mem_cons.2 hmem)
  let t := s.push [(numbered "item" level, v)]
  have hacc' : Fields.get? t.locals name = some (.int acc.toInt) := by
    rw [State.get?_push_cons, if_neg hitem, State.get?_push_nil, hacc]
  have hvalue : Stable prog this t (name :: hashLocals element.comparison (level + 1))
      (fun _ => False) (.ident (numbered "item" level)) v := by
    refine .localOf ?_ fun hmem => ?_
    · rw [State.get?_push_cons, if_pos rfl]
    · rcases List.mem_cons.1 hmem with he | hmem
      · exact hitem he.symm
      · exact numbered_not_mem_hashLocals _ _ _ hmem
  have hbody := h.executes (s := t) rfl hacc' hdeeper hvalue
  rw [State.set_push s (by simpa using hitem)] at hbody
  exact yields_blockTo _ hbody (State.length_set hacc _)

/-- **Lists.** -/
theorem hashRefines_list {element : Shape} {address : Nat} {items : List (Value × Json)}
    (ho : heap.object? address = some (.list (items.map Prod.fst)))
    (ih : ∀ q ∈ items, HashRefines prog heap element q.1 q.2) :
    HashRefines prog heap (.array element) (.ref address) (.list (items.map Prod.snd)) := by
  let step (acc : Int32) (q : Value × Json) : Int32 := folded prog element q.2 acc
  refine .intro (f := fun acc => items.foldl step acc) (fun acc => ?_)
    fun {this s name value level acc} hs hacc hname hv => ?_
  · rw [Shape.comparison, Registry.hashInto_sequence, List.foldlM_map]
    exact foldlM_eq_foldl (fun q hq acc => (ih q hq).evaluates acc) acc
  · subst hs
    -- what is folded so far lies in the local, and the rest leads to the same hash
    let I (rest : List (Value × Json)) (t : State) : Prop :=
      ∃ cur : Int32, t = s.set name (.int cur.toInt) ∧ rest.foldl step cur = items.foldl step acc
    obtain ⟨cell, hcell, -⟩ := Heap.exists_cell ho
    have hwrites (rest) (t) (ht : I rest t) :
        Yields prog (writes (.ref address)) t cell.writes t := by
      obtain ⟨cur, rfl, -⟩ := ht
      exact yields_writesOf hcell
    have hstep (q) (rest) (t) (hq : q ∈ items) (ht : I (q :: rest) t) :
        ∃ u, Yields prog (block this [(numbered "item" level, q.1)]
          (hashStatements name (.ident (numbered "item" level)) element.comparison element
            (level + 1))) t .next u ∧ I rest u := by
      obtain ⟨cur, rfl, htotal⟩ := ht
      have hcur : Fields.get? (s.set name (.int cur.toInt)).locals name = some (.int cur.toInt) := by
        rw [State.get?_set, if_pos rfl]
      refine ⟨_, yields_hashItem (ih q hq) hcur hname, step cur q, ?_, htotal⟩
      exact State.set_set s name _ _
    obtain ⟨t, hloop, cur, rfl, htotal⟩ := each_invariant (s := s) hwrites hstep
      ⟨acc, (State.set_self hacc).symm, rfl⟩
    rw [← htotal]
    refine executes_unlessNull hv.evaluates rfl (fun hnull => absurd hnull Bool.false_ne_true) fun _ => ?_
    have hbody : Yields prog (execute this (.forEach (numbered "item" level) none value _)) s .next
        _ := yields_forEachTo hv.evaluates (yields_writesOf hcell) (yields_listElements ho) hloop
    exact yields_blockTo [] (.single hbody) (State.length_set hacc _)

/-! ## Maps -/

/-- What is done with an entry of a map. -/
def entryStatements (element : Shape) (level : Nat) : List Stmt :=
  [.declare (numbered "entry_hash" level) (some (.named "int"))
    (hashCode (.member (.ident (numbered "entry" level)) "Key"))] ++
  hashStatements (numbered "entry_hash" level) (.member (.ident (numbered "entry" level)) "Value")
    element.comparison element (level + 1) ++
  [.assign (.ident (numbered "sum" level)) (.binary (.ident (numbered "sum" level)) .add
    (.ident (numbered "entry_hash" level)))]

/-- One turn of the loop over a map: the hash of the entry starts from its key and is added to the
sum. -/
theorem yields_hashEntry {this : Value} {s : State} {element : Shape} {level : Nat} {key : String}
    {v : Value} {a : Json} {sum : Int32} (h : HashRefines prog s.heap element v a) :
    Yields prog (block this [(numbered "entry" level, .entry key v)] (entryStatements element level))
      (s.push [(numbered "sum" level, .int sum.toInt)]) .next
      (s.push [(numbered "sum" level,
        .int (sum + folded prog element a (prog.leafHash.text key)).toInt)]) := by
  have hne {base base' : String} (hb : base ≠ base') : numbered base level ≠ numbered base' level :=
    fun he => hb (numbered_inj.1 he).1
  generalize hn : folded prog element a (prog.leafHash.text key) = n
  -- the three locals of this level, the last one first
  let inside (hash sum : Int32) : State := s.push [(numbered "entry_hash" level, .int hash.toInt),
    (numbered "entry" level, .entry key v), (numbered "sum" level, .int sum.toInt)]
  let t := s.push [(numbered "entry" level, .entry key v), (numbered "sum" level, .int sum.toInt)]
  have hentry : Evaluates prog this t (.ident (numbered "entry" level)) (.entry key v) := by
    apply Evaluates.localOf
    rw [State.get?_push_cons, if_pos rfl]
  have hkey : Evaluates prog this t (hashCode (.member (.ident (numbered "entry" level)) "Key"))
      (.int (prog.leafHash.text key).toInt) := by
    have hhash : (Json.text key).hash prog.leafHash = prog.leafHash.text key := rfl
    rw [← hhash]
    exact evaluates_leafHash (.member hentry (Yields.result _ t))
  have hdeclare : Yields prog (execute this (.declare (numbered "entry_hash" level)
      (some (.named "int")) (hashCode (.member (.ident (numbered "entry" level)) "Key")))) t .next
      (inside (prog.leafHash.text key) sum) := yields_declare hkey
  have hvalue : Stable prog this (inside (prog.leafHash.text key) sum)
      (numbered "entry_hash" level :: hashLocals element.comparison (level + 1)) (fun _ => False)
      (.member (.ident (numbered "entry" level)) "Value") v := by
    refine .entryValue (.localOf (v := .entry key v) ?_ fun hmem => ?_)
    · rw [State.get?_push_cons, if_neg (hne (by decide)), State.get?_push_cons, if_pos rfl]
    · rcases List.mem_cons.1 hmem with he | hmem
      · exact hne (by decide) he
      · exact numbered_not_mem_hashLocals _ _ _ hmem
  have hstart : Fields.get? (inside (prog.leafHash.text key) sum).locals (numbered "entry_hash" level) =
      some (.int (prog.leafHash.text key).toInt) := by
    rw [State.get?_push_cons, if_pos rfl]
  have hfold := h.executes (s := inside (prog.leafHash.text key) sum) rfl hstart
    (numbered_not_mem_hashLocals _ _ _) hvalue
  rw [State.set_push_self, hn] at hfold
  have hsum : Fields.get? (inside n sum).locals (numbered "sum" level) = some (.int sum.toInt) := by
    rw [State.get?_push_cons, if_neg (hne (by decide)), State.get?_push_cons,
      if_neg (hne (by decide)), State.get?_push_cons, if_pos rfl]
  have hhash : Fields.get? (inside n sum).locals (numbered "entry_hash" level) =
      some (.int n.toInt) := by
    rw [State.get?_push_cons, if_pos rfl]
  have hadd : Evaluates prog this (inside n sum) (.binary (.ident (numbered "sum" level)) .add
      (.ident (numbered "entry_hash" level))) (.int (sum + n).toInt) :=
    evaluates_add (.localOf hsum) (.localOf hhash)
  have hassign := yields_assignLocal hadd hsum
  have hset : (inside n sum).set (numbered "sum" level) (.int (sum + n).toInt) = inside n (sum + n) := by
    have hother : numbered "sum" level ∉ Fields.keys [(numbered "entry_hash" level,
        Value.int n.toInt), (numbered "entry" level, .entry key v)] := by
      simp [hne (show "sum" ≠ "entry_hash" by decide), hne (show "sum" ≠ "entry" by decide)]
    have hsplit (sum : Int32) : inside n sum = (s.push [(numbered "sum" level, .int sum.toInt)]).push
        [(numbered "entry_hash" level, .int n.toInt), (numbered "entry" level, .entry key v)] := rfl
    rw [hsplit, hsplit, State.set_push _ hother, State.set_push_self]
  rw [hset] at hassign
  have hbody := ((Executes.single hdeclare).append hfold).append (.single hassign)
  refine yields_blockTo [(numbered "entry_hash" level, .int n.toInt),
    (numbered "entry" level, .entry key v)] ?_ (by simp [State.push])
  rw [State.push_push, State.push_push]
  exact hbody

/-- **Maps.** -/
theorem hashRefines_map {element : Shape} {address : Nat} {entries : Fields (Value × Json)}
    (ho : heap.object? address = some (.dictionary (entries.mapValues Prod.fst)))
    (ih : ∀ e ∈ entries, HashRefines prog heap element e.2.1 e.2.2) :
    HashRefines prog heap (.map element) (.ref address) (.object (entries.mapValues Prod.snd)) := by
  let step (sum : Int32) (e : String × Value × Json) : Int32 :=
    sum + folded prog element e.2.2 (prog.leafHash.text e.1)
  refine .intro (f := fun acc => foldHash acc (entries.foldl step 0)) (fun acc => ?_)
    fun {this s name value level acc} hs hacc hname hv => ?_
  · have hsum : (entries.mapValues Prod.snd).foldlM (addHash (prog.registry.entryHash prog.leafHash
        element.comparison (.map element))) 0 = .ok (entries.foldl step 0) := by
      rw [Fields.mapValues, List.foldlM_map]
      exact foldlM_eq_foldl (fun e he sum =>
        addHash_eq_ok.2 ⟨_, (ih e he).evaluates (prog.leafHash.text e.1), rfl⟩) 0
    rw [Shape.comparison, Registry.hashInto_unordered, hsum]
    rfl
  · subst hs
    have hsumLocal : numbered "sum" level ∈ hashLocals (Shape.map element).comparison level :=
      List.mem_cons_self
    have hne : name ≠ numbered "sum" level := fun he => hname (he ▸ hsumLocal)
    let I (rest : List (String × Value × Json)) (t : State) : Prop :=
      ∃ cur : Int32, t = s.push [(numbered "sum" level, .int cur.toInt)] ∧
        rest.foldl step cur = entries.foldl step 0
    obtain ⟨cell, hcell, -⟩ := Heap.exists_cell ho
    have hwrites (rest) (t) (ht : I rest t) :
        Yields prog (writes (.ref address)) t cell.writes t := by
      obtain ⟨cur, rfl, -⟩ := ht
      exact yields_writesOf hcell
    have hstep (e) (rest) (t) (he : e ∈ entries) (ht : I (e :: rest) t) :
        ∃ u, Yields prog (block this [(numbered "entry" level, Value.entry e.1 e.2.1)]
          (entryStatements element level)) t .next u ∧ I rest u := by
      obtain ⟨cur, rfl, htotal⟩ := ht
      exact ⟨_, yields_hashEntry (ih e he), _, rfl, htotal⟩
    obtain ⟨t, hloop, cur, rfl, htotal⟩ := each_invariant hwrites hstep
      (s := s.push [(numbered "sum" level, .int (0 : Int32).toInt)]) ⟨0, rfl, rfl⟩
    rw [← htotal, List.foldl_nil]
    have helements : (entries.mapValues Prod.fst).map (fun f => Value.entry f.1 f.2) =
        entries.map fun e => Value.entry e.1 e.2.1 := by
      rw [Fields.mapValues, List.map_map]
      rfl
    have hpushed : Changed (name :: hashLocals (Shape.map element).comparison level)
        (fun _ => False) s (s.push [(numbered "sum" level, .int (0 : Int32).toInt)]) :=
      (Changed.refl _ _ s).push fun _ hmem =>
        List.mem_cons_of_mem _ (List.mem_singleton.1 hmem ▸ hsumLocal)
    have hentries (t : State) (ht : t.heap = s.heap) : Yields prog (elements (.ref address)) t
        (entries.map fun e => Value.entry e.1 e.2.1) t := by
      rw [← helements]
      exact yields_elements (ht ▸ ho)
    refine executes_unlessNull hv.evaluates rfl (fun hnull => absurd hnull Bool.false_ne_true) fun _ => ?_
    refine yields_blockTo [(numbered "sum" level, .int cur.toInt)] ?_ (State.length_set hacc _)
    refine .next (yields_declare (evaluates_int _)) (.next (yields_forEachTo
      (hv _ hpushed) (yields_writesOf hcell) (hentries _ rfl) hloop) (.single ?_))
    rw [← State.set_push s (by simpa using hne)]
    refine yields_foldInto ?_ (.localOf ?_)
    · rw [State.get?_push_cons, if_neg hne, State.get?_push_nil, hacc]
    · rw [State.get?_push_cons, if_pos rfl]

/-! ## Objects -/

/-- The names of the properties of a class are not those of the locals of its `GetHashCode`. -/
def HashNames (c : ClassModel) : Prop := ∀ p ∈ c.properties, p.name ∉ (getHashCode c).names

/-- What the evaluator makes of the properties of an object. -/
def objectHash (prog : Program) (c : ClassModel) (a : Json) : Int32 :=
  c.properties.foldl (fun acc p => folded prog p.shape (a.part p.jsonName) acc) hashSeed

theorem names_getHashCode (c : ClassModel) :
    "result" ∈ (getHashCode c).names ∧
      ∀ p ∈ c.properties, hashLocals p.comparison 0 ⊆ (getHashCode c).names := by
  let folds := c.properties.flatMap fun p =>
    hashStatements "result" (.ident p.name) p.comparison p.shape 0
  have hnames : (getHashCode c).names = Stmt.declaredAll
      ([.declare "result" (some (.named "int")) (.int hashSeed.toInt)] ++
        (if folds.isEmpty then [] else [.unchecked folds]) ++ [.ret (.ident "result")]) := rfl
  rw [hnames, Stmt.declaredAll_append, Stmt.declaredAll_append]
  refine ⟨?_, fun p hp name h => ?_⟩
  · simp [Stmt.declaredAll, Stmt.declared]
  · have hfolds : name ∈ Stmt.declaredAll folds := by
      rw [Stmt.declaredAll_flatMap]
      exact List.mem_flatMap.2 ⟨p, hp, hashLocals_subset_declared _ _ _ _ _ h⟩
    have hnonempty : folds.isEmpty = false := by
      cases hl : folds with
      | nil =>
        rw [hl] at hfolds
        cases hfolds
      | cons stmt rest => rfl
    simp [hnonempty, Stmt.declaredAll, Stmt.declared, hfolds]

theorem result_not_mem_hashLocals (comparison : Comparison) (level : Nat) :
    "result" ∉ hashLocals comparison level := by
  intro h
  obtain ⟨base, k, -, heq⟩ := level_of_mem_hashLocals h
  exact ne_numbered (by decide) base k heq

section

variable {c : ClassModel} {address : Nat} {className : String} {properties : Fields Value}
  {value : Property → Value} {a : Json}

/-- The properties of an object are taken into the result one after another. -/
theorem executes_hashProperties {s : State} {l : List Property} (hl : l ⊆ c.properties)
    (hr : ∀ p ∈ c.properties, p.comparison = p.shape.comparison) (hn : HashNames c)
    (ho : s.heap.object? address = some (.instanceOf className properties))
    (hv : ∀ p ∈ c.properties, properties.get? p.name = some (value p))
    (ih : ∀ p ∈ c.properties, HashRefines prog s.heap p.shape (value p) (a.part p.jsonName))
    (hs : s.locals = []) (acc : Int32) :
    Executes prog (.ref address) (s.push [("result", .int acc.toInt)])
      (l.flatMap fun p => hashStatements "result" (.ident p.name) p.comparison p.shape 0) .next
      (s.push [("result", .int
        (l.foldl (fun acc p => folded prog p.shape (a.part p.jsonName) acc) acc).toInt)]) := by
  induction l generalizing acc with
  | nil => exact .nil
  | cons p l ihl =>
    rw [List.cons_subset] at hl
    obtain ⟨hp, hl⟩ := hl
    let t := s.push [("result", .int acc.toInt)]
    have hresult : Fields.get? t.locals "result" = some (.int acc.toInt) := by
      rw [State.get?_push_cons, if_pos rfl]
    -- no local hides the property, so its name is read as a member of `this`
    have hname : p.name ≠ "result" := fun he => hn p hp (he ▸ (names_getHashCode c).1)
    have hlocal : p.name ∉ "result" :: hashLocals p.shape.comparison 0 := by
      rw [List.mem_cons, ← hr p hp]
      exact not_or.2 ⟨hname, fun hmem => hn p hp ((names_getHashCode c).2 p hp hmem)⟩
    have hvalue : Stable prog (.ref address) t ("result" :: hashLocals p.shape.comparison 0)
        (fun _ => False) (.ident p.name) (value p) := by
      refine .property ?_ hlocal not_false ho (hv p hp)
      rw [State.get?_push_cons, if_neg hname, State.get?_push_nil, hs, Fields.get?_nil]
    have hfold := (ih p hp).executes (s := t) rfl hresult (result_not_mem_hashLocals _ _) hvalue
    rw [State.set_push_self] at hfold
    rw [List.flatMap_cons, List.foldl_cons, hr p hp]
    exact hfold.append (ihl hl _)

/-- **`GetHashCode` of an object**, if its properties are hashed as they should. -/
theorem yields_getHashCode {s : State} (hr : ∀ p ∈ c.properties, p.comparison = p.shape.comparison)
    (hn : HashNames c) (ho : s.heap.object? address = some (.instanceOf className properties))
    (hv : ∀ p ∈ c.properties, properties.get? p.name = some (value p))
    (ih : ∀ p ∈ c.properties, HashRefines prog s.heap p.shape (value p) (a.part p.jsonName)) :
    Yields prog (invoke (.ref address) (getHashCode c) []) s (.int (objectHash prog c a).toInt)
      s := by
  let folds := c.properties.flatMap fun p =>
    hashStatements "result" (.ident p.name) p.comparison p.shape 0
  let t : State := { s with locals := [] }
  let before := t.push [("result", .int hashSeed.toInt)]
  let after := t.push [("result", .int (objectHash prog c a).toInt)]
  have hfolds : Executes prog (.ref address) before folds .next after :=
    executes_hashProperties (s := t) (List.Subset.refl _) hr hn ho hv ih rfl hashSeed
  -- without properties there is no block, and nothing to do
  have hblock : Executes prog (.ref address) before
      (if folds.isEmpty then [] else [.unchecked folds]) .next after := by
    split
    · next hempty =>
      rw [List.isEmpty_iff.1 hempty] at hfolds
      exact hfolds
    · refine .single (yields_execute ?_)
      exact yields_blockTo [] hfolds (by simp [before, after, State.push])
  have hdeclare : Yields prog (execute (.ref address)
      (.declare "result" (some (.named "int")) (.int hashSeed.toInt))) t .next before :=
    yields_declare (evaluates_int _)
  have hret : Yields prog (execute (.ref address) (.ret (.ident "result"))) after
      (.returned (.int (objectHash prog c a).toInt)) after := by
    refine yields_ret (.localOf ?_)
    rw [State.get?_push_cons, if_pos rfl]
  exact yields_invoke rfl (((Executes.single hdeclare).append hblock).append (.single hret)) rfl

theorem hashProperties_eq_objectHash (hr : ∀ p ∈ c.properties, p.comparison = p.shape.comparison)
    (ih : ∀ p ∈ c.properties, HashRefines prog heap p.shape (value p) (a.part p.jsonName)) :
    Registry.hashProperties c (fun key => prog.registry.hashInto prog.leafHash (a.part key)) =
      .ok (objectHash prog c a) := by
  refine foldlM_eq_foldl (fun p hp acc => ?_) hashSeed
  rw [Property.evaluated_of_comparison (hr p hp)]
  exact (ih p hp).evaluates acc

end

/-- **Objects** are hashed by their own `GetHashCode`. -/
theorem hashRefines_object (hr : prog.registry.ComparesByShape) {name : String} {c : ClassModel}
    {address : Nat} {properties : Fields Value} {fields : List (String × Json)}
    {value : Property → Value} (hc : prog.registry.get? name = some c) (hn : HashNames c)
    (ho : heap.object? address = some (.instanceOf name properties))
    (hv : ∀ p ∈ c.properties, properties.get? p.name = some (value p))
    (ih : ∀ p ∈ c.properties,
      HashRefines prog heap p.shape (value p) ((Json.object fields).part p.jsonName)) :
    HashRefines prog heap (.ofClass name) (.ref address) (.object fields) := by
  have hshape := hr c (Registry.mem_of_get? hc)
  refine .intro (f := fun acc => foldHash acc (objectHash prog c (.object fields))) (fun acc => ?_)
    fun {this s name value level acc} hs hacc hname hstable => ?_
  · rw [Shape.comparison, Registry.hashInto_structural _ _ rfl, Registry.find_of_get? hc]
    simp only [Except.bind, hashProperties_eq_objectHash hshape ih]
  · subst hs
    have hclass := (Heap.class?_of_object? (r := prog.registry) ho).trans hc
    exact executes_foldUnlessNull hacc hstable.evaluates rfl rfl (evaluates_hashCode
      hstable.evaluates (yields_callMethod ho hclass rfl (yields_getHashCode hshape hn ho hv ih)))

/-- **Generated statements hash as the evaluator does.** -/
theorem Denotes.hashRefines (hr : prog.registry.ComparesByShape) {shape : Shape} {v : Value}
    {a : Json} (hn : ∀ d, prog.registry.Reaches shape d → HashNames d)
    (hv : Denotes prog.registry heap shape v a) : HashRefines prog heap shape v a := by
  induction hv with
  | null h => exact hashRefines_null h
  | scalar h => exact hashRefines_scalar h
  | object value hc ho hv _ ih =>
    exact hashRefines_object hr hc (hn _ (.here rfl hc)) ho hv fun p hp =>
      ih p hp fun d hd => hn d (.there rfl hc hp hd)
  | list items ho _ ih => exact hashRefines_list ho fun q hq => ih q hq fun d hd => hn d hd.array
  | map entries _ ho _ ih => exact hashRefines_map ho fun e he => ih e he fun d hd => hn d hd.map

/-! ## The member -/

/-- **Generated hashes are the hashes of instances.** For a class of a registry that was built without
comparers, where no class that its objects lead to has two properties of one name or one named like a
local of its `GetHashCode`, and whatever the hashes of scalars are:

* well-typed trees lie in some heap;
* wherever one lies, the evaluator finds a hash for it, and `GetHashCode` returns that hash. It meets
  no fault, such as a dereferenced `null`, and changes nothing. -/
theorem hashMember_refines {schema : Schema} {hints : HintTable} {rootClass name : String}
    {r : Registry} {c : ClassModel} {a : Json} (leaf : LeafHash)
    (hbuild : Registry.build schema hints rootClass = .ok r)
    (hhints : ∀ schemaId property, hints.comparer? schemaId property = none)
    (hc : r.get? name = some c)
    (hnames : ∀ d, r.Reaches (.ofClass name) d →
      (d.properties.map Property.name).Nodup ∧ HashNames d)
    (ha : r.fits a (.ofClass name) = true) (hnull : a.isNull = false) :
    (∃ heap v, Denotes r heap (.ofClass name) v a) ∧
    ∀ (s : State) (v : Value), Denotes r s.heap (.ofClass name) v a →
      ∃ n, r.hash leaf name a = .ok n ∧
        Yields { registry := r, leafHash := leaf } (invoke v (getHashCode c) []) s (.int n.toInt)
          s := by
  have hr := Registry.comparesByShape_of_build hbuild hhints
  constructor
  · obtain ⟨ext, v, hv⟩ := exists_denotes (fun d hd => (hnames d hd).1) ha []
    exact ⟨_, v, hv⟩
  · intro s v hv
    let prog : Program := { registry := r, leafHash := leaf }
    have hshape := hr c (Registry.mem_of_get? hc)
    cases hv with
    | null _ => cases hnull
    | object value hc' ho hv hd =>
      cases hc.symm.trans hc'
      have hparts (p) (hp : p ∈ c.properties) :
          HashRefines prog s.heap p.shape (value p) (Json.part _ p.jsonName) :=
        (hd p hp).hashRefines hr fun d hd => (hnames d (.there rfl hc hp hd)).2
      refine ⟨objectHash prog c _, ?_, yields_getHashCode hshape (hnames c (.here rfl hc)).2 ho hv
        hparts⟩
      rw [Registry.hash, Registry.find_of_get? hc]
      exact hashProperties_eq_objectHash hshape hparts

theorem hashMember_refines_trees :
    ∃ c v s n, Registry.trees.get? "Tree" = some c ∧
      Denotes Registry.trees s.heap (.ofClass "Tree") v Registry.aTree ∧
      Registry.trees.hash .sip "Tree" Registry.aTree = .ok n ∧
      Yields Registry.trees (invoke v (getHashCode c) []) s (.int n.toInt) s := by
  have hnames (d) (hd : Registry.trees.Reaches (.ofClass "Tree") d) :
      (d.properties.map Property.name).Nodup ∧ HashNames d := by
    cases List.mem_singleton.1 hd.mem
    exact ⟨by decide, by unfold HashNames; decide⟩
  have ha : Registry.trees.fits Registry.aTree (.ofClass "Tree") = true := by decide
  obtain ⟨⟨heap, v, hv⟩, h⟩ :=
    hashMember_refines .sip build_treeSchema (fun _ _ => rfl) rfl hnames ha rfl
  obtain ⟨n, hn, hyields⟩ := h ⟨heap, []⟩ v hv
  exact ⟨_, v, ⟨heap, []⟩, n, rfl, hv, hn, hyields⟩

set_option maxRecDepth 4000 in
theorem run_getHashCode_shelves : invoke (.ref 1) (getHashCode shelfClass) []
    (engine (Registry.shelves "result") 20) ⟨shelfHeap "result", []⟩ = .error .illFormed := by
  rfl

/-- **A property of a class further on may be hidden by a local.** The names of the class of shelves
are in order. But boxes have a property that is named like the accumulator of `GetHashCode`, so that
there the accumulator, which is a number, is asked for its own hash. -/
theorem getHashCode_fails_hidden :
    Registry.build shelfSchema (boxHints "result") "Root" = .ok (Registry.shelves "result") ∧
    (∀ schemaId property, (boxHints "result").comparer? schemaId property = none) ∧
    (Registry.shelves "result").get? "Shelf" = some shelfClass ∧
    (shelfClass.properties.map Property.name).Nodup ∧ HashNames shelfClass ∧
    (Registry.shelves "result").fits Registry.aShelf (.ofClass "Shelf") = true ∧
    ∃ s v n, Denotes (Registry.shelves "result") s.heap (.ofClass "Shelf") v Registry.aShelf ∧
      (Registry.shelves "result").hash .sip "Shelf" Registry.aShelf = .ok n ∧
      ¬ ∃ w t, Yields (Registry.shelves "result") (invoke v (getHashCode shelfClass) []) s w t := by
  refine ⟨build_shelfSchema "result", boxHints_comparer? "result", rfl, by decide,
    by unfold HashNames; decide, rfl, ⟨shelfHeap "result", []⟩, .ref 1, 544, denotes_shelf rfl rfl,
    by decide, ?_⟩
  rintro ⟨w, t, hrun⟩
  exact hrun.false_of_engine run_getHashCode_shelves nofun

end Machine

end Classwright
