import Classwright.Json.Basic

/-!
# Walks over values

A walk gives every value a result from the value itself and the results for its parts. Equality,
order, hashing, copying and visiting are walks, so one induction covers them all.
-/

namespace Classwright.Json

variable {β : Type}

mutual

/-- The result for a value. `step` gets the value and the results for its items and its fields. -/
def walk (step : Json → List β → Fields β → β) : Json → β
  | list items => step (list items) (walkItems step items) []
  | object fields => step (object fields) [] (walkFields step fields)
  | null => step null [] []
  | bool b => step (bool b) [] []
  | number n => step (number n) [] []
  | text s => step (text s) [] []

/-- The results for the items of a list. -/
def walkItems (step : Json → List β → Fields β → β) : List Json → List β
  | [] => []
  | v :: rest => walk step v :: walkItems step rest

/-- The results for the fields of an object. -/
def walkFields (step : Json → List β → Fields β → β) : List (String × Json) → Fields β
  | [] => []
  | (key, v) :: rest => (key, walk step v) :: walkFields step rest

end

theorem walkItems_eq_map (step : Json → List β → Fields β → β) (items : List Json) :
    walkItems step items = items.map (walk step) := by
  induction items with
  | nil => rfl
  | cons v rest ih => simp [walkItems, ih]

theorem walkFields_eq_map (step : Json → List β → Fields β → β) (fields : List (String × Json)) :
    walkFields step fields = fields.map fun (key, v) => (key, walk step v) := by
  induction fields with
  | nil => rfl
  | cons field rest ih => simp [walkFields, ih]

/-- The value of a field. What is not there is `null`. -/
def part (v : Json) (key : String) : Json := (v.field? key).getD null

end Classwright.Json
