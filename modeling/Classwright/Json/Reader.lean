import Classwright.Json.Skip

/-!
# Reading documents

A reader takes a typed value from the front of a text or names the first fault. Readers are put
together from a few parts: texts, booleans, optional values, lists, objects and records. A record
is an object with known fields; it may also be written as the list of its fields in order.

Lists and objects may nest to a fixed depth. A reader of nested values gets the depth that is left
and recurses on it; `none` in place of the inner reader says that nothing is left.
-/

namespace Classwright.Json

/-- Reads a value from the front of a text. -/
abbrev Reader (α : Type) := (s : List Char) → Except Fault (Taken α s)

/-- How deep lists and objects may nest in a document. -/
def maxDepth : Nat := 127

variable {α β σ κ : Type}

/-- Changes what a reader gives. -/
def Reader.map (f : α → β) (read : Reader α) : Reader β := fun s => (read s).map (Taken.map f)

/-- Puts a cause at a place. -/
def located (path : Path) (x : Except Cause α) : Except Fault α := x.mapError fun c => ⟨path, c⟩

/-- Reads the value of a whole document. What follows the value is ignored. -/
def readDocument (read : Reader α) (s : String) : Except Fault α :=
  (read s.toList).map (·.value)

/-! ### Values without parts -/

/-- Reads a string. -/
def readText (path : Path) : Reader String := fun s =>
  match h : skipSpace s with
  | '"' :: r =>
    located path ((string r).map (Taken.weaken (Nat.le_of_lt (length_lt_of_skipSpace h))))
  | s' => .error ⟨path, mismatch .text s'⟩

/-- Reads a boolean. -/
def readBool (path : Path) : Reader Bool := fun s =>
  match scalar (skipSpace s) with
  | .ok ⟨.bool b, r, h⟩ => .ok ⟨b, r, Nat.lt_of_lt_of_le h (length_skipSpace_le s)⟩
  | _ => .error ⟨path, mismatch .boolean (skipSpace s)⟩

/-- Reads a value that may be `null`. -/
def readOptional (path : Path) (read : Reader α) : Reader (Option α) := fun s =>
  match h : skipSpace s with
  | 'n' :: r =>
    match word ['u', 'l', 'l'] r with
    | .ok r' => .ok ⟨none, r'.1, Nat.lt_of_le_of_lt r'.2 (length_lt_of_skipSpace h)⟩
    | .error cause => .error ⟨path, cause⟩
  | _ => (read s).map (Taken.map some)

/-- Skips a value. -/
def readIgnored (path : Path) : Reader Unit := fun s => located path (skipValue s)

/-! ### Lists -/

/-- What follows inside a list or object. -/
inductive Next (s : List Char) where
  /-- The end, and the text after it. -/
  | closed (rest : List Char) (shorter : rest.length < s.length)
  /-- Another item or key, at the front of the rest. -/
  | more (rest : List Char) (le : rest.length ≤ s.length)

/-- What follows in a list. `first` says that no item has been read yet. -/
def nextItem (first : Bool) (s : List Char) : Except Cause (Next s) :=
  match h : skipSpace s with
  | [] => .error (.endOfText .list)
  | c :: r =>
    if c = ']' then .ok (.closed r (length_lt_of_skipSpace h))
    else if first then .ok (.more (c :: r) (h ▸ length_skipSpace_le s))
    else if c = ',' then
      match skipSpace r with
      | [] => .error (.endOfText .value)
      | ']' :: _ => .error .trailingComma
      | _ => .ok (.more r (Nat.le_of_lt (length_lt_of_skipSpace h)))
    else .error .itemSeparatorExpected

/-- The end of a list that can hold no more items. -/
def closeList (s : List Char) : Except Cause (Taken Unit s) :=
  match h : skipSpace s with
  | [] => .error (.endOfText .list)
  | c :: r =>
    if c = ']' then .ok ⟨(), r, length_lt_of_skipSpace h⟩
    else if c = ',' then
      match skipSpace r with
      | ']' :: _ => .error .trailingComma
      | _ => .error .trailingText
    else .error .trailingText

/-- The items of a list after the `index` items in `done`, last first. -/
def itemsFrom {s₀ : List Char} (path : Path) (item : Nat → Reader α) (index : Nat) (done : List α)
    (s : List Char) (h : s.length ≤ s₀.length) : Except Fault (Taken (List α) s₀) :=
  match nextItem (index == 0) s with
  | .error cause => .error ⟨path, cause⟩
  | .ok (.closed r shorter) => .ok ⟨done.reverse, r, Nat.lt_of_lt_of_le shorter h⟩
  | .ok (.more r le) =>
    match item index r with
    | .error fault => .error fault
    | .ok v => itemsFrom path item (index + 1) (v.value :: done) v.rest (by
        have := v.shorter; omega)
termination_by s.length
decreasing_by have := v.shorter; omega

/-- Reads a list. `item` reads the item with a given number. -/
def readList (path : Path) (item : Option (Nat → Reader α)) : Reader (List α) := fun s =>
  match h : skipSpace s with
  | '[' :: r =>
    match item with
    | none => .error ⟨path, .tooDeep⟩
    | some item => itemsFrom path item 0 [] r (Nat.le_of_lt (length_lt_of_skipSpace h))
  | s' => .error ⟨path, mismatch .list s'⟩

/-! ### Objects -/

/-- What follows in an object: its end, or a key after its opening quote. -/
def nextKey (first : Bool) (s : List Char) : Except Cause (Next s) :=
  match h : skipSpace s with
  | [] => .error (.endOfText .object)
  | c :: r =>
    if c = '}' then .ok (.closed r (length_lt_of_skipSpace h))
    else if first then
      if c = '"' then .ok (.more r (Nat.le_of_lt (length_lt_of_skipSpace h)))
      else .error .keyExpected
    else if c = ',' then
      match h' : skipSpace r with
      | [] => .error (.endOfText .value)
      | '"' :: r' =>
        .ok (.more r' (by
          have := length_lt_of_skipSpace h; have := length_lt_of_skipSpace h'; omega))
      | '}' :: _ => .error .trailingComma
      | _ => .error .keyExpected
    else .error .fieldSeparatorExpected

/-- The text after a colon. -/
def colon (s : List Char) : Except Cause (Taken Unit s) :=
  match h : skipSpace s with
  | [] => .error (.endOfText .object)
  | ':' :: r => .ok ⟨(), r, length_lt_of_skipSpace h⟩
  | _ => .error .colonExpected

/-- The fields of an object, each taken into a state by the reader that `entry` chooses for its
key. -/
def fieldsFrom {s₀ : List Char} (path : Path) (entry : σ → String → Except Fault (Reader σ))
    (first : Bool) (state : σ) (s : List Char) (h : s.length ≤ s₀.length) :
    Except Fault (Taken σ s₀) :=
  match nextKey first s with
  | .error cause => .error ⟨.unnamed :: path, cause⟩
  | .ok (.closed r shorter) => .ok ⟨state, r, Nat.lt_of_lt_of_le shorter h⟩
  | .ok (.more r le) =>
    match string r with
    | .error cause => .error ⟨.unnamed :: path, cause⟩
    | .ok key =>
      match entry state key.value with
      | .error fault => .error fault
      | .ok read =>
        match colon key.rest with
        | .error cause => .error ⟨path, cause⟩
        | .ok after =>
          match read after.rest with
          | .error fault => .error fault
          | .ok v => fieldsFrom path entry false v.value v.rest (by
              have := key.shorter; have := after.shorter; have := v.shorter; omega)
termination_by s.length
decreasing_by have := key.shorter; have := after.shorter; have := v.shorter; omega

/-- Reads an object whose fields all have the same type, in document order, repeated keys
included. -/
def readObject (path : Path) (field : Option (String → Reader α)) : Reader (Fields α) := fun s =>
  match h : skipSpace s with
  | '{' :: r =>
    match field with
    | none => .error ⟨path, .tooDeep⟩
    | some field =>
      let entry (done : Fields α) (key : String) : Except Fault (Reader (Fields α)) :=
        .ok ((field key).map fun v => (key, v) :: done)
      (fieldsFrom path entry true [] r (Nat.le_of_lt (length_lt_of_skipSpace h))).map
        (Taken.map List.reverse)
  | s' => .error ⟨path, mismatch .object s'⟩

/-! ### Records -/

/-- The fields of a record in declaration order, and whether it refuses others. -/
structure RecordType (κ : Type) where
  name : String
  fields : Fields κ
  strict : Bool

/-- Takes one field of a record into a draft of it. -/
abbrev Assign (κ σ : Type) := κ → Path → σ → Reader σ

/-- The reader for a key of a record. The state holds the keys read so far and the draft. -/
def recordEntry (type : RecordType κ) (assign : Assign κ σ) (path : Path)
    (state : List String × σ) (key : String) : Except Fault (Reader (List String × σ)) :=
  match type.fields.get? key with
  | some field =>
    if state.1.contains key then .error ⟨path, .duplicateField key⟩
    else .ok ((assign field (.key key :: path) state.2).map fun draft => (key :: state.1, draft))
  | none =>
    if type.strict then .error ⟨.key key :: path, .unknownField key type.fields.keys⟩
    else .ok ((readIgnored (.key key :: path)).map fun _ => state)

/-- The fields of a record written as a list, from field number `index` on. -/
def recordItems {s₀ : List Char} (assign : Assign κ σ) (path : Path) :
    (fields : Fields κ) → (index : Nat) → (draft : σ) → (s : List Char) → s.length ≤ s₀.length →
    Except Fault (Taken σ s₀)
  | [], _, draft, s, h =>
    match closeList s with
    | .error cause => .error ⟨path, cause⟩
    | .ok r => .ok ⟨draft, r.rest, Nat.lt_of_lt_of_le r.shorter h⟩
  | (_, field) :: fields, index, draft, s, h =>
    match nextItem (index == 0) s with
    | .error cause => .error ⟨path, cause⟩
    | .ok (.closed r shorter) => .ok ⟨draft, r, Nat.lt_of_lt_of_le shorter h⟩
    | .ok (.more r le) =>
      match assign field (.index index :: path) draft r with
      | .error fault => .error fault
      | .ok v => recordItems assign path fields (index + 1) v.value v.rest (by
          have := v.shorter; omega)

/-- Reads a record whose fields all have defaults. -/
def readRecord (type : RecordType κ) (default : σ) (path : Path) (assign : Option (Assign κ σ)) :
    Reader σ := fun s =>
  match h : skipSpace s with
  | '[' :: r =>
    match assign with
    | none => .error ⟨path, .tooDeep⟩
    | some assign =>
      recordItems assign path type.fields 0 default r (Nat.le_of_lt (length_lt_of_skipSpace h))
  | '{' :: r =>
    match assign with
    | none => .error ⟨path, .tooDeep⟩
    | some assign =>
      (fieldsFrom path (recordEntry type assign path) true ([], default) r
        (Nat.le_of_lt (length_lt_of_skipSpace h))).map (Taken.map Prod.snd)
  | s' => .error ⟨path, mismatch (.record type.name) s'⟩

/-! ### Values of any type -/

/-- Reads a value of any type as it stands, repeated keys included. -/
def readRaw : (depth : Nat) → Path → Reader Json
  | depth, path => fun s =>
    match skipSpace s with
    | '[' :: _ =>
      match depth with
      | 0 => .error ⟨path, .tooDeep⟩
      | d + 1 =>
        (readList path (some fun i => readRaw d (.index i :: path)) s).map (Taken.map .list)
    | '{' :: _ =>
      match depth with
      | 0 => .error ⟨path, .tooDeep⟩
      | d + 1 =>
        (readObject path (some fun key => readRaw d (.key key :: path)) s).map (Taken.map .object)
    | _ =>
      located path ((scalar (skipSpace s)).map fun v =>
        (v.map Scalar.toJson).weaken (length_skipSpace_le s))

/-- Reads a value of any type, with one field per key. -/
def readValue (depth : Nat) (path : Path) : Reader Json := (readRaw depth path).map collapse

end Classwright.Json
