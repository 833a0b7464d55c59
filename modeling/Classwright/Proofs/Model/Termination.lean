import Classwright.Proofs.Model.Chain

/-!
# Classification ends

References may form cycles, so a schema that is classified can come up again inside itself, and the
schema behind a reference may be larger than the one with the reference. Here classification is run as
its two mutually recursive calls, with one list of the definitions that are being expanded: a definition
is put on it before its schema is classified and taken off afterwards. Nothing in this says that the
calls come to an end.

## The architecture

* **`Call`**, **`Scope.body`** — a call, for a schema or for a reference, and what it does: the recursion
  is left open, so the same body can be run with any bound on the depth of calls (`Scope.runFor`), or only
  up to the call that it makes (`Scope.Calls`).
* **`Scope.Handover`**, **`returns_or_handsOver`** — the step lemma. A call returns at once and leaves the
  list as it is, or it makes one call, on whose result it returns. Everything about that call is said here.
* **`classification_terminates`** — what follows for whole runs. The result is that of `Scope.classify`
  and of `Scope.resolve`, and no bound can be seen in it.
-/

namespace Classwright

/-! ## Calls -/

/-- A call of classification. -/
inductive Call where
  | schema (s : Schema)
  | reference (fragment : String)

/-- The size of what a call is about. -/
noncomputable def Call.size : Call → Nat
  | schema s => sizeOf s
  | reference fragment => sizeOf fragment

/-- A call together with the definitions that are being expanded, the latest one first. -/
abbrev Frame := List String × Call

/-- A computation that changes the list of definitions that are being expanded, and may stop. -/
abbrev Guarded (ε : Type) := StateT (List String) (Except ε)

namespace Scope

variable (scope : Scope) (site : Site)

/-- What a call does, given what the calls do that it makes. -/
def body {ε : Type} (call : Call → Guarded ε (Noted Shape)) : Call → Guarded ε (Noted Shape)
  | .schema s =>
    match s.reference with
    | some fragment => call (.reference fragment)
    | none => do
      match scope.onward site (← get) s with
      | .done result => return result
      | .goOn wrap _ part => return (← call (.schema part)).map wrap
  | .reference fragment =>
    match definitionName? fragment with
    | none => return ⟨.untyped, [.reference site.schemaId site.property fragment], []⟩
    | some definition => do
      match scope.expand site (← get) definition with
      | .done result => return result
      | .goOn _ _ target =>
        modify fun expanding => definition :: expanding
        let result ← call (.schema target)
        modify fun expanding => expanding.filter (· ≠ definition)
        return result

/-- Runs a call with a bound on the depth of calls. It stops where the bound is reached. -/
def runFor : Nat → Call → Guarded Unit (Noted Shape)
  | 0, _ => throw ()
  | depth + 1, call => scope.body site (runFor depth) call

/-- The call that a call makes: run the body up to there, and stop with it. -/
def Calls (x y : Frame) : Prop :=
  (scope.body site (fun call expanding => .error (expanding, call)) x.2).run x.1 = .error y

/-- The result of a call, as classification has it. -/
def answer (x : Frame) : Noted Shape :=
  match x.2 with
  | .schema s => scope.classify site x.1 s
  | .reference fragment => scope.resolve site x.1 fragment

/-- The number of definitions that are not being expanded, and the size of what is looked at. -/
noncomputable def rank (x : Frame) : Nat × Nat := (scope.unexpanded x.1, x.2.size)

end Scope

theorem Schema.sizeOf_reference_lt {s : Schema} {fragment : String}
    (h : s.reference = some fragment) : sizeOf fragment < sizeOf s := by
  cases s
  cases h
  simp only [Schema.mk.sizeOf_spec, Option.some.sizeOf_spec]
  omega

/-! ## One call -/

namespace Scope

variable {scope : Scope} {site : Site}

/-- A call that makes no other one. The list stays as it is. -/
def Returns (scope : Scope) (site : Site) (x : Frame) : Prop :=
  ∀ {ε : Type} (call : Call → Guarded ε (Noted Shape)),
    (scope.body site call x.2).run x.1 = .ok (scope.answer site x, x.1)

/-- A call that makes another one. -/
structure Handover (scope : Scope) (site : Site) (x : Frame) where
  next : Frame
  /-- What it makes of the shape. -/
  wrap : Shape → Shape
  /-- What it does with the list afterwards. -/
  restore : List String → List String
  run_body : ∀ {ε : Type} (call : Call → Guarded ε (Noted Shape)),
    (scope.body site call x.2).run x.1 =
      ((call next.2).run next.1).map fun out => (out.1.map wrap, restore out.2)
  restore_next : restore next.1 = x.1
  answer_eq : scope.answer site x = (scope.answer site next).map wrap
  expanding : next.1 = x.1 ∨ ∃ definition, definition ∉ x.1 ∧ next.1 = definition :: x.1
  decreases : Prod.Lex (· < ·) (· < ·) (scope.rank next) (scope.rank x)

/-- Without a reference nothing is expanded, and the step goes to a part of the schema. -/
theorem part_of_onward {expanding expanding' : List String} {s t : Schema} {wrap : Shape → Shape}
    (hr : s.reference = none) (h : scope.onward site expanding s = .goOn wrap expanding' t) :
    expanding' = expanding ∧ sizeOf t < sizeOf s := by
  obtain ⟨label, hs, -, heq⟩ := advances_of_onward h
  dsimp only at hs heq
  cases hs with
  | items _ _ hi => exact ⟨heq, Schema.sizeOf_items_lt hi⟩
  | values _ _ _ ha => exact ⟨heq, Schema.sizeOf_additional_lt ha⟩
  | expand hr' _ _ _ => cases hr.symm.trans hr'

/-- A definition is expanded only if it is there and is not being expanded. -/
theorem target_of_expand {expanding expanding' : List String} {definition : String} {t : Schema}
    {wrap : Shape → Shape} (h : scope.expand site expanding definition = .goOn wrap expanding' t) :
    scope.definitions.get? definition = some t ∧ definition ∉ expanding ∧ wrap = id ∧
      expanding' = definition :: expanding := by
  unfold expand at h
  split at h
  · cases h
  · next hget =>
    split at h
    · cases h
    · split at h
      · cases h
      · next he =>
        cases h
        exact ⟨hget, he, rfl, rfl⟩

theorem schema_returns_or_handsOver (scope : Scope) (site : Site) (expanding : List String)
    (s : Schema) : scope.Returns site (expanding, .schema s) ∨
      Nonempty (scope.Handover site (expanding, .schema s)) := by
  cases hr : s.reference with
  | some fragment =>
    refine .inr ⟨⟨(expanding, .reference fragment), id, id, fun call => ?_, rfl, ?_, .inl rfl, ?_⟩⟩
    · simp only [body, hr]
      cases (call (.reference fragment)).run expanding <;> rfl
    · simp only [answer]
      rw [classify, hr]
      rfl
    · exact .right _ (Schema.sizeOf_reference_lt hr)
  | none =>
    cases honward : scope.onward site expanding s with
    | done result =>
      refine .inl fun call => ?_
      have hanswer : scope.answer site (expanding, .schema s) = result := by
        simp only [answer, classify_eq_onward, honward, Onward.finish]
      simp only [body, hr, StateT.run_bind, StateT.run_get, pure_bind, honward, StateT.run_pure]
      rw [hanswer]
      exact rfl
    | goOn wrap expanding' part =>
      obtain ⟨rfl, hsize⟩ := part_of_onward hr honward
      refine .inr ⟨⟨(expanding', .schema part), wrap, id, fun call => ?_, rfl, ?_, .inl rfl, ?_⟩⟩
      · simp only [body, hr, StateT.run_bind, StateT.run_get, pure_bind, honward]
        cases (call (.schema part)).run expanding' <;> rfl
      · simp only [answer]
        rw [classify_eq_onward, honward]
        rfl
      · exact .right _ hsize

theorem reference_returns_or_handsOver (scope : Scope) (site : Site) (expanding : List String)
    (fragment : String) : scope.Returns site (expanding, .reference fragment) ∨
      Nonempty (scope.Handover site (expanding, .reference fragment)) := by
  cases hn : definitionName? fragment with
  | none =>
    refine .inl fun call => ?_
    simp only [body, answer, resolve, hn]
    rfl
  | some definition =>
    cases hexpand : scope.expand site expanding definition with
    | done result =>
      refine .inl fun call => ?_
      have hanswer : scope.answer site (expanding, .reference fragment) = result := by
        simp only [answer, resolve_eq_expand expanding hn, hexpand, Onward.finish]
      simp only [body, hn, StateT.run_bind, StateT.run_get, pure_bind, hexpand, StateT.run_pure]
      rw [hanswer]
      exact rfl
    | goOn wrap expanding' target =>
      obtain ⟨hget, hnew, rfl, rfl⟩ := target_of_expand hexpand
      refine .inr ⟨⟨(definition :: expanding, .schema target), id,
        List.filter (· ≠ definition), fun call => ?_, ?_, ?_, .inr ⟨definition, hnew, rfl⟩, ?_⟩⟩
      · simp only [body, hn, StateT.run_bind, StateT.run_get, pure_bind, hexpand, StateT.run_modify]
        cases (call (.schema target)).run (definition :: expanding) <;> rfl
      -- the definition was not on the list, so taking it off gives the list back
      · rw [List.filter_cons_of_neg (by simp), List.filter_eq_self]
        intro d hd
        exact decide_eq_true (ne_of_mem_of_not_mem hd hnew)
      · simp only [answer]
        rw [resolve_eq_expand expanding hn, hexpand]
        rfl
      · exact .left _ _ (unexpanded_lt hget (by simpa using hnew))

/-- **One call.** It returns at once, or on the result of one other call. -/
theorem returns_or_handsOver (scope : Scope) (site : Site) :
    ∀ x : Frame, scope.Returns site x ∨ Nonempty (scope.Handover site x)
  | (expanding, .schema s) => schema_returns_or_handsOver scope site expanding s
  | (expanding, .reference fragment) => reference_returns_or_handsOver scope site expanding fragment

/-! ## Whole runs -/

/-- The result of the call that is made gives that of the call that makes it. -/
theorem Handover.run_of_next {x : Frame} (handover : scope.Handover site x) {ε : Type}
    {call : Call → Guarded ε (Noted Shape)} (h : (call handover.next.2).run handover.next.1 =
      .ok (scope.answer site handover.next, handover.next.1)) :
    (scope.body site call x.2).run x.1 = .ok (scope.answer site x, x.1) := by
  rw [handover.run_body, h, handover.answer_eq]
  exact congrArg (fun expanding => Except.ok (_, expanding)) handover.restore_next

theorem Handover.calls_iff {x y : Frame} (handover : scope.Handover site x) :
    scope.Calls site x y ↔ y = handover.next := by
  rw [Calls, handover.run_body]
  constructor
  · rintro ⟨⟩
    rfl
  · rintro rfl
    rfl

theorem Returns.not_calls {x y : Frame} (h : scope.Returns site x) : ¬ scope.Calls site x y := by
  rw [Calls, h]
  rintro ⟨⟩

/-- A call that makes another one hands over to it. -/
theorem Calls.exists_handover {x y : Frame} (h : scope.Calls site x y) :
    ∃ handover : scope.Handover site x, handover.next = y := by
  obtain hreturns | ⟨⟨handover⟩⟩ := returns_or_handsOver scope site x
  · exact absurd h hreturns.not_calls
  · exact ⟨handover, (handover.calls_iff.1 h).symm⟩

theorem Calls.decreases {x y : Frame} (h : scope.Calls site x y) :
    Prod.Lex (· < ·) (· < ·) (scope.rank y) (scope.rank x) := by
  obtain ⟨handover, rfl⟩ := h.exists_handover
  exact handover.decreases

theorem wellFounded_calls (scope : Scope) (site : Site) :
    WellFounded fun y x => scope.Calls site x y :=
  Subrelation.wf Calls.decreases
    (InvImage.wf scope.rank (Prod.lex Nat.lt_wfRel Nat.lt_wfRel).wf)

theorem Calls.nodup {x y : Frame} (h : scope.Calls site x y) (hx : x.1.Nodup) : y.1.Nodup := by
  obtain ⟨handover, rfl⟩ := h.exists_handover
  obtain hsame | ⟨definition, hnew, hcons⟩ := handover.expanding
  · rwa [hsame]
  · rw [hcons]
    exact List.nodup_cons.2 ⟨hnew, hx⟩

/-- The definitions that are being expanded stay distinct, however deep the calls are. -/
theorem nodup_of_calls {x y : Frame} (h : Relation.ReflTransGen (scope.Calls site) x y)
    (hx : x.1.Nodup) : y.1.Nodup := by
  induction h with
  | refl => exact hx
  | tail _ hcall ih => exact hcall.nodup ih

/-- A bound is enough if it is enough for the call that is made. -/
theorem exists_depth (scope : Scope) (site : Site) (x : Frame) :
    ∃ enough, ∀ depth ≥ enough,
      (scope.runFor site depth x.2).run x.1 = .ok (scope.answer site x, x.1) := by
  induction x using (wellFounded_calls scope site).induction with
  | _ x ih =>
    obtain hreturns | ⟨⟨handover⟩⟩ := returns_or_handsOver scope site x
    · refine ⟨1, fun depth hdepth => ?_⟩
      obtain ⟨depth, rfl⟩ := Nat.exists_eq_add_of_le' hdepth
      exact hreturns _
    · obtain ⟨enough, hnext⟩ := ih handover.next (handover.calls_iff.2 rfl)
      refine ⟨enough + 1, fun depth hdepth => ?_⟩
      obtain ⟨depth, rfl⟩ := Nat.exists_eq_add_of_le' (Nat.le_of_add_left_le hdepth)
      exact handover.run_of_next (hnext depth (by omega))

/-- A run that comes to an end does not show its bound. -/
theorem answer_of_runFor {depth : Nat} {x : Frame} {out : Noted Shape × List String}
    (h : (scope.runFor site depth x.2).run x.1 = .ok out) : out = (scope.answer site x, x.1) := by
  induction depth generalizing x out with
  | zero => cases h
  | succ depth ih =>
    rw [runFor] at h
    obtain hreturns | ⟨⟨handover⟩⟩ := returns_or_handsOver scope site x
    · rw [hreturns] at h
      cases h
      rfl
    · cases hnext : (scope.runFor site depth handover.next.2).run handover.next.1 with
      | error stop =>
        rw [handover.run_body, hnext] at h
        cases h
      | ok result =>
        cases ih hnext
        rw [handover.run_of_next hnext] at h
        cases h
        rfl

/-- What a call does depends on the call that it makes, and on no other. -/
theorem run_body_congr {x : Frame} {ε : Type} {call call' : Call → Guarded ε (Noted Shape)}
    (h : ∀ y, scope.Calls site x y → (call y.2).run y.1 = (call' y.2).run y.1) :
    (scope.body site call x.2).run x.1 = (scope.body site call' x.2).run x.1 := by
  obtain hreturns | ⟨⟨handover⟩⟩ := returns_or_handsOver scope site x
  · rw [hreturns, hreturns]
  · rw [handover.run_body, handover.run_body, h _ (handover.calls_iff.2 rfl)]

/-- **Classification ends on every schema**, also where definitions refer to each other in circles. Each
call leaves fewer definitions to expand, or as many and a smaller part of the schema to look at, and it
makes no call but the one that is named here. No definition is expanded inside itself. When a call returns,
the definitions that are being expanded are those of before, and whichever bound on the depth of calls is
enough, the result is the same. -/
theorem classification_terminates (scope : Scope) (site : Site) :
    (∀ x y, scope.Calls site x y →
      Prod.Lex (· < ·) (· < ·) (scope.rank y) (scope.rank x)) ∧
    (∀ x {ε : Type} (call call' : Call → Guarded ε (Noted Shape)),
      (∀ y, scope.Calls site x y → (call y.2).run y.1 = (call' y.2).run y.1) →
      (scope.body site call x.2).run x.1 = (scope.body site call' x.2).run x.1) ∧
    (WellFounded fun y x => scope.Calls site x y) ∧
    (∀ x y, x.1.Nodup → Relation.ReflTransGen (scope.Calls site) x y → y.1.Nodup) ∧
    ∀ x : Frame,
      (∃ enough, ∀ depth ≥ enough,
        (scope.runFor site depth x.2).run x.1 = .ok (scope.answer site x, x.1)) ∧
      ∀ depth out, (scope.runFor site depth x.2).run x.1 = .ok out →
        out = (scope.answer site x, x.1) :=
  ⟨fun _ _ h => h.decreases, fun _ _ _ _ h => run_body_congr h, wellFounded_calls scope site,
    fun _ _ hx h => nodup_of_calls h hx,
    fun x => ⟨exists_depth scope site x, fun _ _ h => answer_of_runFor h⟩⟩

/-- Rows of cells, where a cell is made of rows again. -/
def circle : Scope where
  definitions := [
    ("rows", { items := some { reference := some "#/definitions/row" } }),
    ("row", { additionalProperties := some (.schema { reference := some "#/definitions/cell" }) }),
    ("cell", { reference := some "#/definitions/rows" })]
  hints := ⟨[]⟩

/-- The circle is left where it closes. The call there has all three definitions on its list, and none of
them is on it when the run is over. -/
theorem classification_terminates_circle :
    let site : Site := ⟨"sheet", "rows"⟩
    let s : Schema := { reference := some "#/definitions/rows" }
    let result : Noted Shape :=
      ⟨.array (.map .untyped), [], [.cyclicAlias "sheet" "rows" "rows"]⟩
    let closing : Frame := (["cell", "row", "rows"], .reference "#/definitions/rows")
    circle.classify site [] s = result ∧
      (circle.runFor site 10 (.schema s)).run [] = .ok (result, []) ∧
      Relation.ReflTransGen (circle.Calls site) ([], .schema s) closing ∧ closing.1.Nodup := by
  intro site s result closing
  have hrun : (circle.runFor site 10 (.schema s)).run [] = .ok (result, []) := rfl
  have hcalls : Relation.ReflTransGen (circle.Calls site) ([], .schema s) closing := by
    iterate 9 refine .head rfl ?_
    exact .refl
  obtain ⟨-, -, -, hnodup, hanswer⟩ := classification_terminates circle site
  refine ⟨?_, hrun, hcalls, hnodup _ _ List.nodup_nil hcalls⟩
  obtain ⟨-, hresult⟩ := hanswer ([], .schema s)
  exact (congrArg Prod.fst (hresult 10 _ hrun)).symm

end Scope

end Classwright
