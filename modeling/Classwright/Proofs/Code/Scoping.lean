import Classwright.Proofs.Emit.Names

/-!
# Scopes of locals

C# rejects a local whose name is in scope already, and the scope of a local is its whole block, the part
before its declaration included. An output argument in a condition declares a local of the block around
the statement. A loop is the scope of its variable.

* **`Block`**, **`Steps`**, **`Stmt.Scoped`** — statements that keep to these rules, as far as a given kind
  of names is concerned. `around` are the names in scope, `before` those declared by now, and only these
  may be used.
* **`scoped_of_spare`** — statements that do not declare such names, and use those that may be used.
* **`Fits`** — well scoped wherever certain names may be used and certain others are not in scope. Such
  statements can be put one after another (`Fits.append`), and nested (`Fits.nests`).
-/

namespace Classwright.Code

/-! ## Used names -/

mutual

/-- The names that an expression uses. -/
def Expr.used : Expr → List String
  | .ident name => [name]
  | .member target _ => target.used
  | .index target position => target.used ++ position.used
  | .call callee arguments => callee.used ++ Expr.usedAll arguments
  | .new _ arguments => Expr.usedAll arguments
  | .cast _ operand => operand.used
  | .asType operand _ => operand.used
  | .binary left _ right => left.used ++ right.used
  | .not operand => operand.used
  | .conditional condition yes no => condition.used ++ yes.used ++ no.used
  | .this | .null | .bool _ | .int _ | .type _ | .outVar _ => []

/-- The names that expressions use. -/
def Expr.usedAll : List Expr → List String
  | [] => []
  | e :: rest => e.used ++ Expr.usedAll rest

end

mutual

/-- The names that a statement uses, at any depth. -/
def Stmt.used : Stmt → List String
  | .expr e => e.used
  | .assign target value => target.used ++ value.used
  | .declare _ _ init => init.used
  | .ret e => e.used
  | .ifElse condition yes no => condition.used ++ Stmt.usedAll yes ++ Stmt.usedAll no
  | .forBelow _ bound body => bound.used ++ Stmt.usedAll body
  | .forEach _ _ items body => items.used ++ Stmt.usedAll body
  | .switch subject cases otherwise =>
    subject.used ++ Stmt.usedCases cases ++ Stmt.usedAll otherwise
  | .raise e => e.used
  | .unchecked body => Stmt.usedAll body

/-- The names that statements use. -/
def Stmt.usedAll : List Stmt → List String
  | [] => []
  | stmt :: rest => stmt.used ++ Stmt.usedAll rest

/-- The names that the cases of a switch use. -/
def Stmt.usedCases : List (Expr × List Stmt) → List String
  | [] => []
  | (label, body) :: rest => label.used ++ Stmt.usedAll body ++ Stmt.usedCases rest

end

/-! ## Blocks -/

/-- The locals that a statement declares in the block in which it stands. -/
def Stmt.exported : Stmt → List String
  | .expr e | .ret e | .raise e => e.declared
  | .assign target value => target.declared ++ value.declared
  | .declare name _ init => name :: init.declared
  | .ifElse condition _ _ => condition.declared
  | .switch subject _ _ => subject.declared
  | .forBelow .. | .forEach .. | .unchecked _ => []

/-- The locals of a block. -/
def Stmt.exportedAll (stmts : List Stmt) : List String := stmts.flatMap Stmt.exported

/-- Declared names are new and pairwise different, as far as they are of a kind. -/
structure Fresh (own : String → Prop) (around names : List String) : Prop where
  new : ∀ name ∈ names, own name → name ∉ around
  distinct : names.Pairwise fun a b => own a → a ≠ b

/-- Names of a kind are used only where they may be. -/
def Expr.UsesOnly (own : String → Prop) (before : List String) (e : Expr) : Prop :=
  ∀ name ∈ e.used, own name → name ∈ before

mutual

/-- A statement that is well scoped, as far as names of a kind are concerned, where the names `around` are
in scope and the names `before` are declared. -/
inductive Stmt.Scoped (own : String → Prop) : List String → List String → Stmt → Prop where
  | expr {around before : List String} {e : Expr} (he : e.UsesOnly own before) :
      Stmt.Scoped own around before (.expr e)
  | assign {around before : List String} {target value : Expr} (htarget : target.UsesOnly own before)
      (hvalue : value.UsesOnly own before) : Stmt.Scoped own around before (.assign target value)
  | declare {around before : List String} {name : String} {type : Option TypeRef} {init : Expr}
      (hinit : init.UsesOnly own before) : Stmt.Scoped own around before (.declare name type init)
  | ret {around before : List String} {e : Expr} (he : e.UsesOnly own before) :
      Stmt.Scoped own around before (.ret e)
  | raise {around before : List String} {e : Expr} (he : e.UsesOnly own before) :
      Stmt.Scoped own around before (.raise e)
  | ifElse {around before : List String} {condition : Expr} {yes no : List Stmt}
      (hcondition : condition.UsesOnly own before)
      (hyes : Block own around (before ++ condition.declared) yes)
      (hno : Block own around (before ++ condition.declared) no) :
      Stmt.Scoped own around before (.ifElse condition yes no)
  | forBelow {around before : List String} {index : String} {bound : Expr} {body : List Stmt}
      (hfresh : Fresh own around (index :: bound.declared)) (hbound : bound.UsesOnly own before)
      (hbody : Block own (around ++ index :: bound.declared) (before ++ index :: bound.declared) body) :
      Stmt.Scoped own around before (.forBelow index bound body)
  | forEach {around before : List String} {item : String} {type : Option TypeRef} {items : Expr}
      {body : List Stmt} (hfresh : Fresh own around (item :: items.declared))
      (hitems : items.UsesOnly own before)
      (hbody : Block own (around ++ item :: items.declared) (before ++ item :: items.declared) body) :
      Stmt.Scoped own around before (.forEach item type items body)
  /-- All cases of a switch are one block. -/
  | switch {around before : List String} {subject : Expr} {cases : List (Expr × List Stmt)}
      {otherwise : List Stmt} (hsubject : subject.UsesOnly own before)
      (hlabels : ∀ c ∈ cases, c.1.UsesOnly own before)
      (hfresh : Fresh own around (Stmt.exportedAll (cases.flatMap Prod.snd ++ otherwise)))
      (hcases : ∀ c ∈ cases, Steps own
        (around ++ Stmt.exportedAll (cases.flatMap Prod.snd ++ otherwise)) (before ++ subject.declared) c.2)
      (hotherwise : Steps own (around ++ Stmt.exportedAll (cases.flatMap Prod.snd ++ otherwise))
        (before ++ subject.declared) otherwise) :
      Stmt.Scoped own around before (.switch subject cases otherwise)
  | unchecked {around before : List String} {body : List Stmt} (hbody : Block own around before body) :
      Stmt.Scoped own around before (.unchecked body)

/-- A block: its locals are new and different, and in scope in all of it. -/
inductive Block (own : String → Prop) : List String → List String → List Stmt → Prop where
  | intro {around before : List String} {stmts : List Stmt}
      (hfresh : Fresh own around (Stmt.exportedAll stmts))
      (hsteps : Steps own (around ++ Stmt.exportedAll stmts) before stmts) : Block own around before stmts

/-- Statements one after another: what one of them declares, the next ones may use. -/
inductive Steps (own : String → Prop) : List String → List String → List Stmt → Prop where
  | nil {around before : List String} : Steps own around before []
  | cons {around before : List String} {stmt : Stmt} {rest : List Stmt}
      (hstmt : stmt.Scoped own around before) (hrest : Steps own around (before ++ stmt.exported) rest) :
      Steps own around before (stmt :: rest)

end

/-! ## Statements without locals of the kind -/

section

variable {own : String → Prop}

theorem Stmt.exported_subset_declared (stmt : Stmt) : stmt.exported ⊆ stmt.declared := by
  cases stmt with
  | ifElse condition yes no => simp [exported, declared]
  | switch subject cases otherwise => simp [exported, declared]
  | forBelow | forEach | unchecked => exact List.nil_subset _
  | expr | assign | declare | ret | raise => simp [exported, declared]

theorem Stmt.exportedAll_subset_declaredAll (stmts : List Stmt) :
    Stmt.exportedAll stmts ⊆ Stmt.declaredAll stmts := by
  induction stmts with
  | nil => exact List.nil_subset _
  | cons stmt rest ih =>
    exact List.append_subset.2 ⟨List.subset_append_of_subset_left _ stmt.exported_subset_declared,
      List.subset_append_of_subset_right _ ih⟩

theorem Stmt.declaredAll_subset_declaredCases {cases : List (Expr × List Stmt)} {c : Expr × List Stmt}
    (hc : c ∈ cases) : Stmt.declaredAll c.2 ⊆ Stmt.declaredCases cases := by
  induction cases with
  | nil => exact absurd hc List.not_mem_nil
  | cons head rest ih =>
    rcases List.mem_cons.1 hc with rfl | hc
    · simp [declaredCases]
    · exact List.subset_append_of_subset_right _ (ih hc)

theorem Stmt.label_subset_usedCases {cases : List (Expr × List Stmt)} {c : Expr × List Stmt}
    (hc : c ∈ cases) : c.1.used ⊆ Stmt.usedCases cases := by
  induction cases with
  | nil => exact absurd hc List.not_mem_nil
  | cons head rest ih =>
    rcases List.mem_cons.1 hc with rfl | hc
    · simp [usedCases]
    · exact List.subset_append_of_subset_right _ (ih hc)

theorem fresh_of_spare {around names : List String} (h : ∀ name ∈ names, ¬ own name) :
    Fresh own around names :=
  ⟨fun name hname hown => absurd hown (h name hname),
    List.pairwise_iff_forall_sublist.2 fun hab hown =>
      absurd hown (h _ (hab.subset List.mem_cons_self))⟩

/-- What is declared and used keeps clear of names of a kind, except that some may be used. -/
structure Spare (own : String → Prop) (before declared used : List String) : Prop where
  declares : ∀ name ∈ declared, ¬ own name
  uses : ∀ name ∈ used, own name → name ∈ before

theorem Spare.mono {before before' declared declared' used used' : List String}
    (h : Spare own before declared used) (hbefore : before ⊆ before') (hdeclared : declared' ⊆ declared)
    (hused : used' ⊆ used) : Spare own before' declared' used' :=
  ⟨fun name hname => h.declares name (hdeclared hname),
    fun name hname hown => hbefore (h.uses name (hused hname) hown)⟩

theorem block_of_steps {around before used : List String} {stmts : List Stmt}
    (h : Spare own before (Stmt.declaredAll stmts) used)
    (hsteps : Steps own (around ++ Stmt.exportedAll stmts) before stmts) : Block own around before stmts :=
  .intro (fresh_of_spare fun name hname =>
    h.declares name (Stmt.exportedAll_subset_declaredAll stmts hname)) hsteps

mutual

theorem Stmt.scoped_of_spare : (stmt : Stmt) → {around before : List String} →
    Spare own before stmt.declared stmt.used → stmt.Scoped own around before
  | .expr _, _, _, h => .expr h.uses
  | .assign target value, _, _, h =>
    .assign (h.mono (List.Subset.refl _) (List.Subset.refl _) (List.subset_append_left ..)).uses
      (h.mono (List.Subset.refl _) (List.Subset.refl _) (List.subset_append_right ..)).uses
  | .declare .., _, _, h => .declare h.uses
  | .ret _, _, _, h => .ret h.uses
  | .raise _, _, _, h => .raise h.uses
  | .ifElse condition yes no, around, before, h => by
    have hyes : Spare own (before ++ condition.declared) (Stmt.declaredAll yes) (Stmt.usedAll yes) :=
      h.mono (List.subset_append_left ..) (by simp [Stmt.declared]) (by simp [Stmt.used])
    have hno : Spare own (before ++ condition.declared) (Stmt.declaredAll no) (Stmt.usedAll no) :=
      h.mono (List.subset_append_left ..) (by simp [Stmt.declared]) (by simp [Stmt.used])
    refine .ifElse (fun name hname => h.uses name ?_) (block_of_steps hyes (steps_of_spare yes hyes))
      (block_of_steps hno (steps_of_spare no hno))
    exact List.mem_append_left _ (List.mem_append_left _ hname)
  | .forBelow index bound body, around, before, h => by
    have hbody : Spare own (before ++ index :: bound.declared) (Stmt.declaredAll body) (Stmt.usedAll body) :=
      h.mono (List.subset_append_left ..) (List.subset_append_right ..) (List.subset_append_right ..)
    exact .forBelow (fresh_of_spare fun name hname => h.declares name (List.mem_append_left _ hname))
      (fun name hname => h.uses name (List.mem_append_left _ hname))
      (block_of_steps hbody (steps_of_spare body hbody))
  | .forEach item _ items body, around, before, h => by
    have hbody : Spare own (before ++ item :: items.declared) (Stmt.declaredAll body) (Stmt.usedAll body) :=
      h.mono (List.subset_append_left ..) (List.subset_append_right ..) (List.subset_append_right ..)
    exact .forEach (fresh_of_spare fun name hname => h.declares name (List.mem_append_left _ hname))
      (fun name hname => h.uses name (List.mem_append_left _ hname))
      (block_of_steps hbody (steps_of_spare body hbody))
  | .switch subject cases otherwise, around, before, h => by
    -- the locals of all cases are looked at together
    have hbefore : before ⊆ before ++ subject.declared := List.subset_append_left ..
    have hlocals : ∀ name ∈ Stmt.exportedAll (cases.flatMap Prod.snd ++ otherwise), ¬ own name := by
      refine fun name hname => h.declares name ?_
      rw [Stmt.exportedAll, List.flatMap_append, List.flatMap_assoc] at hname
      rcases List.mem_append.1 hname with hname | hname
      · obtain ⟨c, hc, hname⟩ := List.mem_flatMap.1 hname
        exact List.mem_append_left _ (List.mem_append_right _
          (Stmt.declaredAll_subset_declaredCases hc (Stmt.exportedAll_subset_declaredAll _ hname)))
      · exact List.mem_append_right _ (Stmt.exportedAll_subset_declaredAll _ hname)
    refine .switch (fun name hname => h.uses name ?_) (fun c hc name hname => h.uses name ?_)
      (fresh_of_spare hlocals)
      (cases_of_spare cases (h.mono hbefore (by simp [Stmt.declared]) (by simp [Stmt.used])))
      (steps_of_spare otherwise (h.mono hbefore (List.subset_append_right ..) (List.subset_append_right ..)))
    · exact List.mem_append_left _ (List.mem_append_left _ hname)
    · exact List.mem_append_left _ (List.mem_append_right _ (Stmt.label_subset_usedCases hc hname))
  | .unchecked body, _, _, h => .unchecked (block_of_steps h (steps_of_spare body h))

theorem steps_of_spare : (stmts : List Stmt) → {around before : List String} →
    Spare own before (Stmt.declaredAll stmts) (Stmt.usedAll stmts) → Steps own around before stmts
  | [], _, _, _ => .nil
  | stmt :: rest, _, _, h =>
    .cons (stmt.scoped_of_spare (h.mono (List.Subset.refl _) (List.subset_append_left ..)
        (List.subset_append_left ..)))
      (steps_of_spare rest (h.mono (List.subset_append_left ..) (List.subset_append_right ..)
        (List.subset_append_right ..)))

theorem cases_of_spare : (cases : List (Expr × List Stmt)) → {around before : List String} →
    Spare own before (Stmt.declaredCases cases) (Stmt.usedCases cases) →
    ∀ c ∈ cases, Steps own around before c.2
  | [], _, _, _, c, hc => absurd hc List.not_mem_nil
  | (label, body) :: rest, _, _, h, c, hc => by
    rcases List.mem_cons.1 hc with rfl | hc
    · refine steps_of_spare body (h.mono (List.Subset.refl _) ?_ ?_)
      all_goals simp [Stmt.declaredCases, Stmt.usedCases]
    · exact cases_of_spare rest (h.mono (List.Subset.refl _) (List.subset_append_right ..)
        (List.subset_append_right ..)) c hc

end

end

/-! ## Composition -/

/-- Two kinds of names: those whose scopes are looked at, and others that may be declared besides them. -/
structure Kinds where
  own : String → Prop
  foreign : String → Prop
  apart : ∀ name, foreign name → ¬ own name

/-- An expression that uses only what is given, and declares only names of the other kind. -/
structure Expr.Admitted (k : Kinds) (given : List String) (e : Expr) : Prop where
  uses : e.UsesOnly k.own given
  declares : ∀ name ∈ e.declared, k.foreign name

/-- Names that are declared together: the new ones, and names of the other kind. -/
structure Declares (k : Kinds) (added names : List String) : Prop where
  cases : ∀ name ∈ names, name ∈ added ∨ k.foreign name
  new : added ⊆ names
  distinct : names.Pairwise fun a b => k.own a → a ≠ b

/-- Statements that are well scoped wherever the names `given` may be used and the reserved names are not in
scope. They add the names `added` to their block, and declare reserved names in inner blocks. -/
structure Fits (k : Kinds) (reserved : String → Prop) (given added : List String) (stmts : List Stmt) :
    Prop where
  exports : Declares k added (Stmt.exportedAll stmts)
  declares : ∀ name ∈ Stmt.declaredAll stmts, name ∈ added ∨ reserved name ∨ k.foreign name
  steps : ∀ {around before : List String}, (∀ name ∈ around, k.own name → ¬ reserved name) →
    given ⊆ before → Steps k.own around before stmts

/-- Statements that are a well scoped block wherever the names `given` may be used and the reserved names
are not in scope. -/
structure Nests (k : Kinds) (reserved : String → Prop) (given : List String) (stmts : List Stmt) :
    Prop where
  declares : ∀ name ∈ Stmt.declaredAll stmts, reserved name ∨ k.foreign name
  block : ∀ {around before : List String}, (∀ name ∈ around, k.own name → ¬ reserved name) →
    given ⊆ before → Block k.own around before stmts

section

variable {k : Kinds} {reserved reserved' : String → Prop} {given given' added added' : List String}

/-! ### Expressions -/

namespace Expr

variable {e position left right condition yes no : Expr} {arguments : List Expr}

theorem Admitted.mono (h : e.Admitted k given) (hgiven : given ⊆ given') : e.Admitted k given' :=
  ⟨fun name hname hown => hgiven (h.uses name hname hown), h.declares⟩

theorem admitted_ident {name : String} : (ident name).Admitted k given ↔ (k.own name → name ∈ given) :=
  ⟨fun h => h.uses name List.mem_cons_self, fun h => ⟨List.forall_mem_singleton.2 h, nofun⟩⟩

theorem admitted_of_closed (hused : e.used = []) (hdeclared : e.declared = []) : e.Admitted k given :=
  ⟨by simp [UsesOnly, hused], by simp [hdeclared]⟩

@[simp] theorem admitted_null : null.Admitted k given := admitted_of_closed rfl rfl

@[simp] theorem admitted_bool {value : Bool} : (bool value).Admitted k given := admitted_of_closed rfl rfl

@[simp] theorem admitted_int {value : Int} : (int value).Admitted k given := admitted_of_closed rfl rfl

@[simp] theorem admitted_type {t : TypeRef} : (type t).Admitted k given := admitted_of_closed rfl rfl

@[simp] theorem admitted_member {name : String} : (member e name).Admitted k given ↔ e.Admitted k given :=
  ⟨fun h => ⟨h.uses, h.declares⟩, fun h => ⟨h.uses, h.declares⟩⟩

@[simp] theorem admitted_not : (not e).Admitted k given ↔ e.Admitted k given :=
  ⟨fun h => ⟨h.uses, h.declares⟩, fun h => ⟨h.uses, h.declares⟩⟩

theorem admitted_append_iff {e₁ e₂ : Expr} (hused : e.used = e₁.used ++ e₂.used)
    (hdeclared : e.declared = e₁.declared ++ e₂.declared) :
    e.Admitted k given ↔ e₁.Admitted k given ∧ e₂.Admitted k given := by
  constructor
  · rintro ⟨huses, hdeclares⟩
    rw [UsesOnly, hused, List.forall_mem_append] at huses
    rw [hdeclared, List.forall_mem_append] at hdeclares
    exact ⟨⟨huses.1, hdeclares.1⟩, ⟨huses.2, hdeclares.2⟩⟩
  · rintro ⟨h₁, h₂⟩
    refine ⟨?_, ?_⟩
    · rw [UsesOnly, hused, List.forall_mem_append]
      exact ⟨h₁.uses, h₂.uses⟩
    · rw [hdeclared, List.forall_mem_append]
      exact ⟨h₁.declares, h₂.declares⟩

@[simp] theorem admitted_index :
    (index e position).Admitted k given ↔ e.Admitted k given ∧ position.Admitted k given :=
  admitted_append_iff rfl rfl

@[simp] theorem admitted_binary {op : BinaryOp} :
    (binary left op right).Admitted k given ↔ left.Admitted k given ∧ right.Admitted k given :=
  admitted_append_iff rfl rfl

@[simp] theorem admitted_isNull : e.isNull.Admitted k given ↔ e.Admitted k given := by
  simp [isNull, equalTo]

@[simp] theorem admitted_notEqualTo :
    (left.notEqualTo right).Admitted k given ↔ left.Admitted k given ∧ right.Admitted k given :=
  admitted_binary

@[simp] theorem admitted_conditional : (conditional condition yes no).Admitted k given ↔
    (condition.Admitted k given ∧ yes.Admitted k given) ∧ no.Admitted k given := by
  have h : (conditional condition yes no).Admitted k given ↔
      (binary condition .or yes).Admitted k given ∧ no.Admitted k given := admitted_append_iff rfl rfl
  rw [h, admitted_binary]

@[simp] theorem admitted_new {t : TypeRef} :
    (new t arguments).Admitted k given ↔ ∀ e ∈ arguments, e.Admitted k given := by
  induction arguments with
  | nil => exact iff_of_true (admitted_of_closed rfl rfl) nofun
  | cons e rest ih =>
    rw [List.forall_mem_cons, ← ih]
    exact admitted_append_iff rfl rfl

@[simp] theorem admitted_call {callee : Expr} : (call callee arguments).Admitted k given ↔
    callee.Admitted k given ∧ ∀ e ∈ arguments, e.Admitted k given := by
  have h : (call callee arguments).Admitted k given ↔
      callee.Admitted k given ∧ (new (.named "") arguments).Admitted k given := admitted_append_iff rfl rfl
  rw [h, admitted_new]

end Expr

/-! ### Statements -/

theorem Declares.own_mem {names : List String} (h : Declares k added names) {name : String}
    (hname : name ∈ names) (hown : k.own name) : name ∈ added :=
  (h.cases name hname).resolve_right fun hforeign => k.apart name hforeign hown

theorem declares_foreign {names : List String} (h : ∀ name ∈ names, k.foreign name) :
    Declares k [] names where
  cases name hname := Or.inr (h name hname)
  new := List.nil_subset _
  distinct :=
    have hfresh : Fresh k.own [] names := fresh_of_spare fun name hname => k.apart name (h name hname)
    hfresh.distinct

theorem Declares.cons {names : List String} (h : Declares k added names) {name : String}
    (hname : name ∉ added) : Declares k (name :: added) (name :: names) where
  cases other hother := by
    rcases List.mem_cons.1 hother with rfl | hother
    · exact Or.inl List.mem_cons_self
    · exact (h.cases other hother).imp_left (List.mem_cons_of_mem _)
  new := List.cons_subset_cons _ h.new
  distinct := List.pairwise_cons.2 ⟨fun other hother hown heq =>
    hname (heq ▸ h.own_mem hother (heq ▸ hown)), h.distinct⟩

theorem Declares.append {names names' : List String} (h : Declares k added names)
    (h' : Declares k added' names') (hadded : ∀ name ∈ added, name ∉ added') :
    Declares k (added ++ added') (names ++ names') where
  cases := by
    refine List.forall_mem_append.2 ⟨fun name hname => ?_, fun name hname => ?_⟩
    · exact (h.cases name hname).imp_left (List.mem_append_left _)
    · exact (h'.cases name hname).imp_left (List.mem_append_right _)
  new := List.append_subset.2 ⟨List.subset_append_of_subset_left _ h.new,
    List.subset_append_of_subset_right _ h'.new⟩
  distinct := by
    refine List.pairwise_append.2 ⟨h.distinct, h'.distinct, fun a ha b hb hown heq => ?_⟩
    exact hadded a (h.own_mem ha hown) (heq ▸ h'.own_mem hb (heq ▸ hown))

theorem Steps.append {own : String → Prop} {around before : List String} {xs ys : List Stmt}
    (h : Steps own around before xs) (h' : Steps own around (before ++ Stmt.exportedAll xs) ys) :
    Steps own around before (xs ++ ys) := by
  induction xs generalizing before with
  | nil => simpa [Stmt.exportedAll] using h'
  | cons stmt rest ih =>
    obtain _ | ⟨hstmt, hrest⟩ := h
    refine .cons hstmt (ih hrest ?_)
    rwa [List.append_assoc]

theorem Fits.mono {stmts : List Stmt} (h : Fits k reserved given added stmts)
    (hreserved : ∀ name, reserved name → reserved' name) (hgiven : given ⊆ given') :
    Fits k reserved' given' added stmts where
  exports := h.exports
  declares name hname := (h.declares name hname).imp_right (Or.imp_left (hreserved name))
  steps haround hbefore :=
    h.steps (fun name hname hown hres => haround name hname hown (hreserved name hres))
      (List.Subset.trans hgiven hbefore)

theorem fits_nil : Fits k reserved given [] [] :=
  ⟨declares_foreign nofun, nofun, fun _ _ => .nil⟩

/-- **Statements one after another.** -/
theorem Fits.append {xs ys : List Stmt} (h : Fits k reserved given added xs)
    (h' : Fits k reserved (given ++ added) added' ys) (hadded : ∀ name ∈ added, name ∉ added') :
    Fits k reserved given (added ++ added') (xs ++ ys) where
  exports := by
    rw [Stmt.exportedAll, List.flatMap_append]
    exact h.exports.append h'.exports hadded
  declares := by
    rw [Stmt.declaredAll_append, List.forall_mem_append]
    exact ⟨fun name hname => (h.declares name hname).imp_left (List.mem_append_left _),
      fun name hname => (h'.declares name hname).imp_left (List.mem_append_right _)⟩
  steps haround hbefore := by
    refine (h.steps haround hbefore).append (h'.steps haround ?_)
    exact List.append_subset.2 ⟨List.subset_append_of_subset_left _ hbefore,
      List.subset_append_of_subset_right _ h.exports.new⟩

theorem Fits.andThen {xs ys : List Stmt} (h : Fits k reserved given [] xs)
    (h' : Fits k reserved given added ys) : Fits k reserved given added (xs ++ ys) :=
  h.append (h'.mono (fun _ hres => hres) (List.subset_append_left ..)) nofun

/-- **Statements as a block**: what they add to it is no longer free inside of it. -/
theorem Fits.nests {stmts : List Stmt} (h : Fits k reserved' given added stmts)
    (hreserved : ∀ name, reserved' name → reserved name ∧ name ∉ added)
    (hadded : ∀ name ∈ added, reserved name) : Nests k reserved given stmts where
  declares name hname := by
    rcases h.declares name hname with hnew | hres | hforeign
    · exact Or.inl (hadded name hnew)
    · exact Or.inl (hreserved name hres).1
    · exact Or.inr hforeign
  block haround hbefore := by
    -- a new name was reserved, so it is not in scope, and it is not reserved for what stands inside
    refine .intro ⟨fun name hname hown hin => ?_, h.exports.distinct⟩ (h.steps ?_ hbefore)
    · exact haround name hin hown (hadded name (h.exports.own_mem hname hown))
    · refine List.forall_mem_append.2 ⟨fun name hname hown hres => ?_, fun name hname hown hres => ?_⟩
      · exact haround name hname hown (hreserved name hres).1
      · exact (hreserved name hres).2 (h.exports.own_mem hname hown)

theorem Fits.nests_of_nil {stmts : List Stmt} (h : Fits k reserved given [] stmts) :
    Nests k reserved given stmts :=
  h.nests (fun _ hres => ⟨hres, List.not_mem_nil⟩) nofun

/-- A statement that declares names of the other kind only. -/
theorem fits_of_foreign {stmt : Stmt} (hdeclares : ∀ name ∈ stmt.declared, k.foreign name)
    (huses : ∀ name ∈ stmt.used, k.own name → name ∈ given) : Fits k reserved given [] [stmt] where
  exports := declares_foreign fun name hname => by
    rw [Stmt.exportedAll, List.flatMap_singleton] at hname
    exact hdeclares name (stmt.exported_subset_declared hname)
  declares name hname := by
    rw [Stmt.declaredAll, Stmt.declaredAll, List.append_nil] at hname
    exact Or.inr (Or.inr (hdeclares name hname))
  steps _ hbefore := .cons (stmt.scoped_of_spare ⟨fun name hname => k.apart name (hdeclares name hname),
    fun name hname hown => hbefore (huses name hname hown)⟩) .nil

theorem fits_expr {e : Expr} (h : e.Admitted k given) : Fits k reserved given [] [.expr e] :=
  fits_of_foreign h.declares h.uses

theorem fits_ret {e : Expr} (h : e.Admitted k given) : Fits k reserved given [] [.ret e] :=
  fits_of_foreign h.declares h.uses

theorem fits_assign {target value : Expr} (htarget : target.Admitted k given)
    (hvalue : value.Admitted k given) : Fits k reserved given [] [.assign target value] :=
  fits_of_foreign (List.forall_mem_append.2 ⟨htarget.declares, hvalue.declares⟩)
    (List.forall_mem_append.2 ⟨htarget.uses, hvalue.uses⟩)

theorem fits_declare {name : String} {type : Option TypeRef} {init : Expr} (h : init.Admitted k given) :
    Fits k reserved given [name] [.declare name type init] where
  exports := by
    rw [Stmt.exportedAll, List.flatMap_singleton]
    exact (declares_foreign h.declares).cons List.not_mem_nil
  declares other hother := by
    rw [Stmt.declaredAll, Stmt.declaredAll, List.append_nil, Stmt.declared, List.mem_cons] at hother
    rcases hother with rfl | hother
    · exact Or.inl List.mem_cons_self
    · exact Or.inr (Or.inr (h.declares other hother))
  steps _ hbefore := .cons (.declare (h.mono hbefore).uses) .nil

/-- A condition may add names to the block around it. -/
theorem fits_ifElse {condition : Expr} {yes no : List Stmt} (huses : condition.UsesOnly k.own given)
    (hdeclares : Declares k added condition.declared) (hyes : Nests k reserved given yes)
    (hno : Nests k reserved given no) : Fits k reserved given added [.ifElse condition yes no] where
  exports := by
    rw [Stmt.exportedAll, List.flatMap_singleton]
    exact hdeclares
  declares := by
    rw [Stmt.declaredAll, Stmt.declaredAll, List.append_nil, Stmt.declared, List.forall_mem_append,
      List.forall_mem_append]
    exact ⟨⟨fun name hname => (hdeclares.cases name hname).imp_right Or.inr,
      fun name hname => Or.inr (hyes.declares name hname)⟩,
      fun name hname => Or.inr (hno.declares name hname)⟩
  steps haround hbefore := by
    have hbranch := List.subset_append_of_subset_left condition.declared hbefore
    exact .cons (.ifElse (fun name hname hown => hbefore (huses name hname hown))
      (hyes.block haround hbranch) (hno.block haround hbranch)) .nil

theorem fits_ifThen {condition : Expr} {yes : List Stmt} (h : condition.Admitted k given)
    (hyes : Nests k reserved given yes) : Fits k reserved given [] [.ifThen condition yes] :=
  fits_ifElse h.uses (declares_foreign h.declares) hyes fits_nil.nests_of_nil

section

variable {name : String} {e : Expr} {body : List Stmt} {around before : List String}

/-- What a loop declares for its body. -/
theorem declares_head (h : e.Admitted k given) : Declares k [name] (name :: e.declared) :=
  (declares_foreign h.declares).cons List.not_mem_nil

theorem fresh_head (h : e.Admitted k given) (hname : reserved name)
    (haround : ∀ name ∈ around, k.own name → ¬ reserved name) :
    Fresh k.own around (name :: e.declared) where
  new other hother hown hin := by
    have hnew := List.mem_singleton.1 ((declares_head h).own_mem hother hown)
    exact haround other hin hown (hnew ▸ hname)
  distinct := (declares_head h).distinct

theorem block_loop (h : e.Admitted k given) (hbody : Nests k reserved' (name :: given) body)
    (hreserved : ∀ other, reserved' other → reserved other ∧ other ≠ name)
    (haround : ∀ name ∈ around, k.own name → ¬ reserved name) (hbefore : given ⊆ before) :
    Block k.own (around ++ name :: e.declared) (before ++ name :: e.declared) body := by
  have hgiven : name :: given ⊆ before ++ name :: e.declared :=
    List.cons_subset.2 ⟨by simp, List.subset_append_of_subset_left _ hbefore⟩
  refine hbody.block (List.forall_mem_append.2 ⟨fun other hother hown hres => ?_,
    fun other hother hown hres => ?_⟩) hgiven
  · exact haround other hother hown (hreserved other hres).1
  · exact (hreserved other hres).2 (List.mem_singleton.1 ((declares_head h).own_mem hother hown))

theorem declares_loop (h : e.Admitted k given) (hname : reserved name)
    (hbody : Nests k reserved' (name :: given) body)
    (hreserved : ∀ other, reserved' other → reserved other ∧ other ≠ name) :
    ∀ other ∈ name :: e.declared ++ Stmt.declaredAll body,
      other ∈ [] ∨ reserved other ∨ k.foreign other := by
  refine List.forall_mem_append.2 ⟨List.forall_mem_cons.2 ⟨Or.inr (Or.inl hname), fun other hother => ?_⟩,
    fun other hother => Or.inr ?_⟩
  · exact Or.inr (Or.inr (h.declares other hother))
  · exact (hbody.declares other hother).imp_left fun hres => (hreserved other hres).1

/-- **A loop**: inside of it, its variable may be used and is no longer free. -/
theorem fits_forBelow (h : e.Admitted k given) (hname : reserved name)
    (hbody : Nests k reserved' (name :: given) body)
    (hreserved : ∀ other, reserved' other → reserved other ∧ other ≠ name) :
    Fits k reserved given [] [.forBelow name e body] where
  exports := declares_foreign nofun
  declares := by
    rw [Stmt.declaredAll, Stmt.declaredAll, List.append_nil]
    exact declares_loop h hname hbody hreserved
  steps haround hbefore := .cons (.forBelow (fresh_head h hname haround) (h.mono hbefore).uses
    (block_loop h hbody hreserved haround hbefore)) .nil

theorem fits_forEach {type : Option TypeRef} (h : e.Admitted k given) (hname : reserved name)
    (hbody : Nests k reserved' (name :: given) body)
    (hreserved : ∀ other, reserved' other → reserved other ∧ other ≠ name) :
    Fits k reserved given [] [.forEach name type e body] where
  exports := declares_foreign nofun
  declares := by
    rw [Stmt.declaredAll, Stmt.declaredAll, List.append_nil]
    exact declares_loop h hname hbody hreserved
  steps haround hbefore := .cons (.forEach (fresh_head h hname haround) (h.mono hbefore).uses
    (block_loop h hbody hreserved haround hbefore)) .nil

end

end

end Classwright.Code
