import Classwright.Json.Walk

/-!
# The order of values

A total order on values about which nothing is known. Values of different kinds are ordered by
kind, numbers by value, strings by code points. Lists go by length and then item by item, objects by
size, then by their sorted keys, then by the values of these keys.
-/

namespace Classwright

namespace Fields

variable {α : Type}

/-- Puts a field before the first one with a greater key. -/
def insertSorted (key : String) (value : α) : Fields α → Fields α
  | [] => [(key, value)]
  | (k, v) :: rest =>
    if key < k then (key, value) :: (k, v) :: rest else (k, v) :: insertSorted key value rest

/-- The fields in the order of their keys. -/
def sorted (fields : Fields α) : Fields α :=
  fields.foldl (fun done (key, value) => done.insertSorted key value) []

/-- The values in order. -/
def values (fields : Fields α) : List α := fields.map Prod.snd

end Fields

/-- The order of two lists of keys: the first difference decides. -/
def orderKeys (a b : List String) : Ordering := List.compareLex compare a b

namespace Json

/-- What a value is, before what it holds. -/
def kindRank : Json → Nat
  | null => 0
  | bool _ => 1
  | number _ => 2
  | text _ => 3
  | list _ => 4
  | object _ => 5

/-- The first result that is not `.eq`, of comparisons with the items of a list. -/
def firstDifference : List (Json → Ordering) → List Json → Ordering
  | compareWith :: rest, v :: items => (compareWith v).then (firstDifference rest items)
  | _, _ => .eq

/-- One step of `order`. -/
def orderStep (a : Json) (items : List (Json → Ordering)) (fields : Fields (Json → Ordering))
    (b : Json) : Ordering :=
  match a, b with
  | bool x, bool y => compare x y
  | number x, number y => x.toBinary64.order y.toBinary64
  | text x, text y => compare x y
  | list _, list ys => (compare items.length ys.length).then (firstDifference items ys)
  | object _, object ys =>
    let left := fields.sorted
    let right := Fields.sorted ys
    (compare fields.length ys.length).then <|
      (orderKeys left.keys right.keys).then (firstDifference left.values right.values)
  | a, b => compare a.kindRank b.kindRank

/-- The order of two values. -/
def order : Json → Json → Ordering := walk orderStep

end Json

end Classwright
