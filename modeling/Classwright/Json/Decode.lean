import Classwright.Json.Fault

/-!
# Typed values from plain ones

Values that have been read already are fitted to the types they are used at. A misfit is a fault
at its place below the value that was decoded.
-/

namespace Classwright.Json

variable {α : Type}

/-- Fits a value at a place to a type. -/
abbrev Decoder (α : Type) := Path → Json → Except Fault α

/-- What a value is, for messages. -/
def found : Json → Found
  | null => .null
  | bool b => .boolean b
  | number n => .number n
  | text s => .text s
  | list _ => .list
  | object _ => .object

/-- The fault of a value that is not what is wanted. -/
def misfit (wanted : Wanted) (path : Path) (v : Json) : Fault := ⟨path, .wrongType v.found wanted⟩

/-- A text. -/
def decodeText : Decoder String := fun path v =>
  match v with
  | .text s => .ok s
  | v => .error (misfit .text path v)

/-- A text or `null`. -/
def decodeOptionalText : Decoder (Option String) := fun path v =>
  match v with
  | .null => .ok none
  | v => (decodeText path v).map some

/-- The items of a list from number `index` on. -/
def decodeItems (item : Decoder α) (path : Path) : Nat → List Json → Except Fault (List α)
  | _, [] => .ok []
  | index, v :: items => do
    let x ← item (.index index :: path) v
    let rest ← decodeItems item path (index + 1) items
    .ok (x :: rest)

/-- A list. -/
def decodeList (item : Decoder α) : Decoder (List α) := fun path v =>
  match v with
  | .list items => decodeItems item path 0 items
  | v => .error (misfit .list path v)

/-- A record with one field: its name, the name and type of the field, and what stands for an
absent field. -/
structure SoleField (α : Type) where
  record : String
  field : String
  decode : Decoder α
  absent : Option α

/-- The value of the only field of an object. Every other key is a fault. -/
def SoleField.ofFields (f : SoleField α) : Option α → List (String × Json) → Except Fault α
  | some x, [] => .ok x
  | none, [] =>
    match f.absent with
    | some x => .ok x
    | none => .error ⟨[], .missingField f.field⟩
  | _, (key, v) :: rest => do
    if key = f.field then
      let x ← f.decode [.key key] v
      f.ofFields (some x) rest
    else .error ⟨[.key key], .unknownField key [f.field]⟩

/-- A record with one field, written as an object or as a list of one item. -/
def SoleField.ofJson (f : SoleField α) (v : Json) : Except Fault α :=
  match v with
  | .object fields => f.ofFields none fields
  | .list [] =>
    match f.absent with
    | some x => .ok x
    | none => .error ⟨[], .tooFewItems 0 f.record 1⟩
  | .list (first :: rest) => do
    let x ← f.decode [.index 0] first
    if rest.isEmpty then .ok x else .error ⟨[], .tooManyItems (rest.length + 1)⟩
  | v => .error (misfit (.record f.record) [] v)

end Classwright.Json
