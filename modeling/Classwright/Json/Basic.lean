import Classwright.Number.Binary64

/-!
# JSON values

Objects keep their fields in document order, as a plain list of pairs. A value as it stands in a
text may repeat a key; `Json.collapse` keeps one field per key, with the last value at the first
place.
-/

namespace Classwright

/-- A number: integers of up to 64 bits are exact, every other number is a double. -/
inductive Number where
  | integer (value : Int)
  | double (value : Binary64)
deriving DecidableEq, Repr, Inhabited

namespace Number

/-- Whether an integer literal of this value stays an integer: it has to fit in 64 bits, with or
without a sign. -/
def fits (n : Int) : Bool := -9223372036854775808 ≤ n && n < 18446744073709551616

/-- The double nearest to the number. -/
def toBinary64 : Number → Binary64
  | integer n => .ofInt n
  | double x => x

end Number

/-- A JSON value. -/
inductive Json where
  | null
  | bool (value : Bool)
  | number (value : Number)
  | text (value : String)
  | list (items : List Json)
  | object (fields : List (String × Json))
deriving Repr, Inhabited

/-- Named values in order. -/
abbrev Fields (α : Type) := List (String × α)

namespace Fields

variable {α : Type}

/-- The value under a key. -/
def get? (fields : Fields α) (key : String) : Option α := fields.lookup key

theorem mem_of_get? {fields : Fields α} {key : String} {value : α}
    (h : fields.get? key = some value) : (key, value) ∈ fields := by
  obtain ⟨before, after, rfl, _⟩ := List.lookup_eq_some_iff.1 h
  simp

/-- The keys in order. -/
def keys (fields : Fields α) : List String := fields.map Prod.fst

/-- Whether a key occurs. -/
def contains (fields : Fields α) (key : String) : Bool := fields.any (·.1 == key)

/-- Puts a value under a key. A key that is there keeps its place, a new one goes last. -/
def insert : Fields α → String → α → Fields α
  | [], key, value => [(key, value)]
  | (k, v) :: rest, key, value =>
    if k = key then (key, value) :: rest else (k, v) :: insert rest key value

/-- One field per key: the last value of each key at the place of its first. -/
def collapse (fields : Fields α) : Fields α :=
  fields.foldl (fun done (key, value) => done.insert key value) []

end Fields

namespace Json

mutual

/-- Keeps one field per key in every object of a value. -/
def collapse : Json → Json
  | list items => list (collapseItems items)
  | object fields => object (Fields.collapse (collapseFields fields))
  | null => null
  | bool b => bool b
  | number n => number n
  | text s => text s

/-- `collapse` on every item. -/
def collapseItems : List Json → List Json
  | [] => []
  | v :: rest => collapse v :: collapseItems rest

/-- `collapse` on the value of every field. -/
def collapseFields : List (String × Json) → List (String × Json)
  | [] => []
  | (key, v) :: rest => (key, collapse v) :: collapseFields rest

end

/-- Whether a value is `null`. -/
def isNull : Json → Bool
  | null => true
  | _ => false

/-- The value of a field. A value that is no object has no fields. -/
def field? : Json → String → Option Json
  | object fields, key => Fields.get? fields key
  | _, _ => none

end Json

end Classwright
