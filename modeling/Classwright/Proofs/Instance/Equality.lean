import Classwright.Instance.Equality
import Classwright.Proofs.Json.Order

/-!
# Equations of equality

`Registry.equalValues` is a walk, so it computes with tests for the parts of a value. Here it is
said as a recursion over values: one equation for each comparison that looks into the values, and one
(`equalValues_of_not_opens`) for all the others. From the equations follows when values are equal
(`equalValues_structural_true` and the like): that is what hashes, the order and generated code are
compared with.

Whether a comparison looks into two values (`Comparison.opens`) depends on their ranks only
(`Comparison.rank`), and the order of instances uses the same ranks.
-/

namespace Classwright

/-! ### Tests of all elements -/

section

variable {α β ε : Type}

theorem allM_map (p : β → Except ε Bool) (f : α → β) (l : List α) :
    (l.map f).allM p = l.allM fun x => p (f x) := by
  induction l with
  | nil => rfl
  | cons x l ih => rw [List.map_cons, List.allM, List.allM, ih]

theorem allM_cons_ok {p : α → Except ε Bool} {x : α} {b : Bool} (h : p x = .ok b) (l : List α) :
    (x :: l).allM p = if b then l.allM p else .ok false := by
  rw [List.allM, h]
  cases b <;> rfl

/-- Tests that do not fail can be made by a function. -/
theorem allM_eq_all {p : α → Except ε Bool} {q : α → Bool} {l : List α}
    (h : ∀ x ∈ l, p x = .ok (q x)) : l.allM p = .ok (l.all q) := by
  induction l with
  | nil => rfl
  | cons x l ih =>
    rw [allM_cons_ok (h x List.mem_cons_self), List.all_cons,
      ih fun y hy => h y (List.mem_cons_of_mem _ hy)]
    cases q x <;> rfl

/-- All tests pass if each one does. -/
theorem allM_eq_true_iff {p : α → Except ε Bool} {l : List α} :
    l.allM p = .ok true ↔ ∀ x ∈ l, p x = .ok true := by
  induction l with
  | nil => simp [List.allM, pure, Except.pure]
  | cons x l ih =>
    cases h : p x with
    | error e => simp [List.allM, h, bind, Except.bind]
    | ok b =>
      rw [allM_cons_ok h, List.forall_mem_cons, h]
      cases b with
      | false => simp
      | true => simp [ih]

end

/-! ### What a comparison looks into -/

namespace Comparison

/-- Whether a comparison looks into two values: a class into what is not `null`, a sequence into
lists, an unordered comparison into objects. -/
def opens : Comparison → Json → Json → Bool
  | .structural _, a, b => !a.isNull && !b.isNull
  | .sequence _, .list _, .list _ => true
  | .unordered _, .object _, .object _ => true
  | _, _, _ => false

theorem opens_comm (comparison : Comparison) (a b : Json) :
    comparison.opens b a = comparison.opens a b := by
  cases comparison with
  | structural name => exact Bool.and_comm _ _
  | value => rfl
  | custom comparer => rfl
  | sequence inner => cases a <;> cases b <;> rfl
  | unordered inner => cases a <;> cases b <;> rfl

theorem lists_of_opens {inner : Comparison} {a b : Json}
    (h : (sequence inner).opens a b = true) : ∃ xs ys, a = .list xs ∧ b = .list ys := by
  cases a with
  | list xs =>
    cases b with
    | list ys => exact ⟨xs, ys, rfl, rfl⟩
    | _ => cases h
  | _ => cases h

theorem objects_of_opens {inner : Comparison} {a b : Json}
    (h : (unordered inner).opens a b = true) :
    ∃ xs ys, a = .object xs ∧ b = .object ys := by
  cases a with
  | object xs =>
    cases b with
    | object ys => exact ⟨xs, ys, rfl, rfl⟩
    | _ => cases h
  | _ => cases h

theorem not_null_of_opens {name : String} {a b : Json}
    (h : (structural name).opens a b = true) : a.isNull = false ∧ b.isNull = false := by
  simpa [opens] using h

/-- What decides before a comparison looks into values: whether they are `null`, where a class is
compared, and otherwise their kind. -/
def rank : Comparison → Json → Nat
  | .structural _, v => if v.isNull then 0 else 1
  | _, v => v.kindRank

theorem rank_eq_of_opens {comparison : Comparison} {a b : Json} (h : comparison.opens a b = true) :
    comparison.rank a = comparison.rank b := by
  cases comparison with
  | value => cases h
  | custom comparer => cases h
  | structural name =>
    obtain ⟨ha, hb⟩ := not_null_of_opens h
    rw [rank, rank, ha, hb]
  | sequence inner =>
    obtain ⟨xs, ys, rfl, rfl⟩ := lists_of_opens h
    rfl
  | unordered inner =>
    obtain ⟨xs, ys, rfl, rfl⟩ := objects_of_opens h
    rfl

/-- Values of one rank are looked into alike. -/
theorem opens_congr {comparison : Comparison} {a a' : Json}
    (h : comparison.rank a = comparison.rank a') (b : Json) :
    comparison.opens a b = comparison.opens a' b := by
  cases comparison with
  | value => rfl
  | custom comparer => rfl
  | structural name =>
    rw [rank, rank] at h
    rw [opens, opens]
    cases ha : a.isNull <;> cases ha' : a'.isNull <;> simp_all
  | sequence inner => cases a <;> cases a' <;> first | rfl | (cases h; done) | (cases b <;> rfl)
  | unordered inner => cases a <;> cases a' <;> first | rfl | (cases h; done) | (cases b <;> rfl)

theorem rank_eq_of_kindRank (comparison : Comparison) {a b : Json}
    (h : a.kindRank = b.kindRank) : comparison.rank a = comparison.rank b := by
  cases comparison with
  | structural name => rw [rank, rank, Json.isNull_eq_of_kindRank h]
  | _ => exact h

theorem isNull_eq_of_rank {comparison : Comparison} {a b : Json}
    (h : comparison.rank a = comparison.rank b) : a.isNull = b.isNull := by
  cases comparison with
  | structural name =>
    rw [rank, rank] at h
    cases ha : a.isNull <;> cases hb : b.isNull <;> simp_all
  | _ => exact Json.isNull_eq_of_kindRank h

end Comparison

/-! ### The equations -/

namespace Registry

variable (r : Registry)

theorem equalValues_eq (a : Json) :
    r.equalValues a = r.equalStep a (a.items.map r.equalValues)
      (Fields.mapValues r.equalValues a.fields) :=
  Json.walk_eq r.equalStep a

/-- Objects of a class are compared property by property. -/
theorem equalValues_structural {a b : Json} (ha : a.isNull = false) (hb : b.isNull = false)
    (name : String) (shape : Shape) :
    r.equalValues a (.structural name) shape b = (do
      let c ← r.find name
      c.properties.allM fun p =>
        r.equalValues (a.part p.jsonName) p.evaluated p.shape (b.part p.jsonName)) := by
  have hpart (key : String) : (Fields.get? (Fields.mapValues r.equalValues a.fields) key).getD
      equalNull = r.equalValues (a.part key) := Json.getD_get?_walk r.equalStep a key
  rw [equalValues_eq]
  simp only [equalStep, ha, hb, Bool.or_self, Bool.false_eq_true, if_false, equalProperties, hpart]

/-- Lists are compared item by item. -/
theorem equalValues_sequence (xs ys : List Json) (inner : Comparison) (shape : Shape) :
    r.equalValues (.list xs) (.sequence inner) shape (.list ys) =
      if xs.length = ys.length then
        (xs.zip ys).allM fun (x, y) => r.equalValues x inner shape.element y
      else .ok false := by
  rw [equalValues_eq]
  simp only [equalStep, Json.isNull, Bool.or_self, Bool.false_eq_true, if_false, Json.items,
    List.length_map, List.zip_map_left, allM_map]
  rfl

/-- Maps are compared key by key. -/
theorem equalValues_unordered (xs ys : List (String × Json)) (inner : Comparison) (shape : Shape) :
    r.equalValues (.object xs) (.unordered inner) shape (.object ys) =
      if xs.length = ys.length then
        xs.allM fun (key, x) =>
          match Fields.get? ys key with
          | some y => r.equalValues x inner shape.element y
          | none => .ok false
      else .ok false := by
  rw [equalValues_eq]
  simp only [equalStep, Json.isNull, Bool.or_self, Bool.false_eq_true, if_false, Json.fields]
  exact if_congr (by rw [Fields.length_mapValues]) (allM_map _ _ xs) rfl

/-- What no comparison looks into is compared as a value. -/
theorem equalValues_of_not_opens {a b : Json} {comparison : Comparison}
    (h : comparison.opens a b = false) (shape : Shape) :
    r.equalValues a comparison shape b = .ok (a.order b == .eq) := by
  rw [equalValues_eq]
  cases ha : a.isNull with
  | true =>
    cases Json.eq_null_of_isNull ha
    cases b <;> rfl
  | false =>
    cases hb : b.isNull with
    | true =>
      cases Json.eq_null_of_isNull hb
      cases a <;> rfl
    | false =>
      simp only [equalStep, ha, hb, Bool.or_self, Bool.false_eq_true, if_false]
      split
      · simp [Comparison.opens, ha, hb] at h
      · simp [Comparison.opens] at h
      · simp [Comparison.opens] at h
      · rfl

/-! ### When values are equal -/

theorem equalValues_structural_true {a b : Json} (ha : a.isNull = false) (hb : b.isNull = false)
    {name : String} {shape : Shape} :
    r.equalValues a (.structural name) shape b = .ok true ↔
      ∃ c, r.find name = .ok c ∧ ∀ p ∈ c.properties,
        r.equalValues (a.part p.jsonName) p.evaluated p.shape (b.part p.jsonName) = .ok true := by
  rw [equalValues_structural r ha hb]
  cases r.find name with
  | error e => exact ⟨nofun, nofun⟩
  | ok c =>
    refine allM_eq_true_iff.trans ⟨fun h => ⟨c, rfl, h⟩, ?_⟩
    rintro ⟨_, ⟨⟩, h⟩
    exact h

theorem equalValues_sequence_true {xs ys : List Json} {inner : Comparison} {shape : Shape} :
    r.equalValues (.list xs) (.sequence inner) shape (.list ys) = .ok true ↔
      List.Forall₂ (fun x y => r.equalValues x inner shape.element y = .ok true) xs ys := by
  rw [equalValues_sequence, List.forall₂_iff_zip]
  split
  · next hlen =>
    rw [allM_eq_true_iff]
    exact ⟨fun h => ⟨hlen, fun hab => h _ hab⟩, fun h q hq => h.2 hq⟩
  · next hlen => exact ⟨nofun, fun h => absurd h.1 hlen⟩

/-- Where no key occurs twice, maps are equal if their fields match. -/
theorem equalValues_unordered_true {xs ys : List (String × Json)} {inner : Comparison}
    {shape : Shape} (hd : (Fields.keys xs).Nodup) :
    r.equalValues (.object xs) (.unordered inner) shape (.object ys) = .ok true ↔
      Fields.Match (fun x y => r.equalValues x inner shape.element y = .ok true) xs ys := by
  rw [equalValues_unordered, Fields.match_iff hd]
  split
  · next hlen =>
    rw [allM_eq_true_iff]
    refine ⟨fun h => ⟨hlen, fun f hf => ?_⟩, fun h f hf => ?_⟩
    · have hf' := h f hf
      cases hy : Fields.get? ys f.1 with
      | none => simp [hy] at hf'
      | some y => exact ⟨y, rfl, by simpa [hy] using hf'⟩
    · obtain ⟨y, hy, hf'⟩ := h.2 f hf
      simpa [hy] using hf'
  · next hlen => exact ⟨nofun, fun h => absurd h.1 hlen⟩

theorem equalValues_true_of_not_opens {a b : Json} {comparison : Comparison}
    (h : comparison.opens a b = false) {shape : Shape} :
    r.equalValues a comparison shape b = .ok true ↔ a.order b = .eq := by
  rw [equalValues_of_not_opens r h]
  simp

theorem equals_eq (className : String) (a b : Json) :
    r.equals className a b =
      (r.find className).bind fun _ =>
        r.equalValues a (.structural className) (.ofClass className) b := rfl

/-! ### A registry to try laws on -/

/-- The registry of classes that are given in the order of their names. -/
def ofClasses (classes : List ClassModel) : Registry :=
  ofEntries (classes.map fun c => (c.name, c))

/-- Trees with marks: a class in which values, lists, maps and the class itself occur. -/
def trees : Registry := ofClasses [{
  schemaId := "Tree", name := "Tree", description := none, baseTypes := []
  properties := [
    property "height" "Height" (.scalar .number),
    property "below" "Below" (.array (.ofClass "Tree")),
    property "marks" "Marks" (.map (.scalar .string))] }]
where
  /-- A property that is compared by its shape. -/
  property (jsonName name : String) (shape : Shape) : Property := {
    jsonName, name, shape, kind := shape.kind, arrayDepth := shape.arrayDepth
    isVisitable := shape.containsClass, comparison := shape.comparison
    required := false, description := none, modifiers := ["public"] }

/-- A tree with one tree below it, a gap, and two marks. -/
def aTree : Json := .object [
  ("height", .number (.integer 2)),
  ("below", .list [.object [("height", .number (.integer 1))], .null]),
  ("marks", .object [("bark", .text "rough"), ("age", .null)])]

/-- The same tree: the marks in another order, a `null` written out, and a key of no property. -/
def sameTree : Json := .object [
  ("marks", .object [("age", .null), ("bark", .text "rough")]),
  ("height", .number (.integer 2)),
  ("below", .list [
    .object [("height", .number (.integer 1)), ("marks", .null), ("crown", .bool true)], .null])]

/-- A tree with a `null`, a number in place of a tree and two keys of no property. -/
def looseTree : Json := .object [
  ("crown", .bool true),
  ("below", .list [.number (.integer 7), .object [("leaves", .text "green")]]),
  ("marks", .null),
  ("height", .number (.integer 2))]

end Registry

end Classwright
