import Classwright.Json.Reader
import Classwright.Schema.Basic

/-!
# Reading schemas

A schema is a record all of whose fields may be left out. Two of its fields are choices: a choice
is read as a plain value first and then fitted to one of its forms, so a value that fits none is a
fault of the whole field.
-/

namespace Classwright

/-- The fields of a schema. -/
inductive SchemaField where
  | title
  | description
  | type
  | properties
  | required
  | items
  | additionalProperties
  | definitions
  | reference
  | enumeration
  | format
deriving DecidableEq, Repr

/-- The fields of a schema in declaration order. Unknown fields are skipped. -/
def Schema.record : Json.RecordType SchemaField where
  name := "JsonSchema"
  fields := [
    ("title", .title), ("description", .description), ("type", .type),
    ("properties", .properties), ("required", .required), ("items", .items),
    ("additionalProperties", .additionalProperties), ("definitions", .definitions),
    ("$ref", .reference), ("enum", .enumeration), ("format", .format)]
  strict := false

/-! ### Fitting plain values -/

/-- A type is its keyword, or an object whose only key is the keyword and whose value is `null`. -/
def SchemaType.ofJson? : Json → Option SchemaType
  | .text s => ofKeyword? s
  | .object [(key, .null)] => ofKeyword? key
  | _ => none

/-- A choice of types is a type or a list of types. -/
def TypeChoice.ofJson? (v : Json) : Option TypeChoice :=
  match SchemaType.ofJson? v with
  | some t => some (.one t)
  | none =>
    match v with
    | .list items => (items.mapM SchemaType.ofJson?).map .many
    | _ => none

/-- A text, or nothing for `null`. -/
def optionalText? : Json → Option (Option String)
  | .null => some none
  | .text s => some (some s)
  | _ => none

/-- A list of texts. -/
def texts? : Json → Option (List String)
  | .list items => items.mapM fun
    | .text s => some s
    | _ => none
  | _ => none

namespace Schema

/-- A schema with one more field. The value is also given as a schema and as named schemas, for the
fields that are made of schemas. -/
def withField (field : SchemaField) (draft : Schema) (v : Json) (schema : Unit → Option Schema)
    (named : Unit → Option (Fields Schema)) : Option Schema :=
  match field with
  | .title => (optionalText? v).map fun x => { draft with title := x }
  | .description => (optionalText? v).map fun x => { draft with description := x }
  | .type =>
    if v.isNull then some { draft with type := none }
    else (TypeChoice.ofJson? v).map fun x => { draft with type := some x }
  | .properties => (named ()).map fun x => { draft with properties := x }
  | .required => (texts? v).map fun x => { draft with required := x }
  | .items =>
    if v.isNull then some { draft with items := none }
    else (schema ()).map fun x => { draft with items := some x }
  | .additionalProperties =>
    match v with
    | .null => some { draft with additionalProperties := none }
    | .bool b => some { draft with additionalProperties := some (.flag b) }
    | _ => (schema ()).map fun x => { draft with additionalProperties := some (.schema x) }
  | .definitions => (named ()).map fun x => { draft with definitions := x }
  | .reference => (optionalText? v).map fun x => { draft with reference := x }
  | .enumeration =>
    match v with
    | .null => some { draft with enumeration := none }
    | .list items => some { draft with enumeration := some (Json.collapseItems items) }
    | _ => none
  | .format => (optionalText? v).map fun x => { draft with format := x }

mutual

/-- The schema that a plain value stands for. -/
def ofJson? : Json → Option Schema
  | .list items => ofItems? (record.fields.map Prod.snd) {} items
  | .object fields => ofFields? [] {} fields
  | _ => none

/-- The schema of fields given in order. -/
def ofItems? : List SchemaField → Schema → List Json → Option Schema
  | _, draft, [] => some draft
  | [], _, _ :: _ => none
  | field :: fields, draft, v :: items =>
    match withField field draft v (fun _ => ofJson? v) (fun _ => ofNamed? v) with
    | some draft => ofItems? fields draft items
    | none => none

/-- The schema of fields given by name. `seen` holds the fields so far. -/
def ofFields? : List SchemaField → Schema → List (String × Json) → Option Schema
  | _, draft, [] => some draft
  | seen, draft, (key, v) :: rest =>
    match record.fields.get? key with
    | none => ofFields? seen draft rest
    | some field =>
      if seen.contains field then none
      else
        match withField field draft v (fun _ => ofJson? v) (fun _ => ofNamed? v) with
        | some draft => ofFields? (field :: seen) draft rest
        | none => none

/-- Named schemas. -/
def ofNamed? : Json → Option (Fields Schema)
  | .object fields => (ofNamedFields? fields).map Fields.collapse
  | _ => none

/-- Named schemas, repeated names included. -/
def ofNamedFields? : List (String × Json) → Option (List (String × Schema))
  | [] => some []
  | (key, v) :: rest =>
    match ofJson? v, ofNamedFields? rest with
    | some s, some done => some ((key, s) :: done)
    | _, _ => none

end

end Schema

/-- The value of `additionalProperties` that a plain value stands for. -/
def Additional.ofJson? (v : Json) : Option (Additional Schema) :=
  match v with
  | .bool b => some (.flag b)
  | v => (Schema.ofJson? v).map .schema

/-! ### Reading from text -/

namespace Schema

open Json

/-- Reads a value and fits it to one of the forms of a choice. -/
def readChoice {α : Type} (union : String) (fit : Json → Option α) (depth : Nat) (path : Path) :
    Reader α := fun s =>
  match readRaw depth path s with
  | .error fault => .error fault
  | .ok v =>
    match fit v.value with
    | some x => .ok (v.map fun _ => x)
    | none => .error ⟨path, .noVariant union⟩

/-- Reads a list of texts. -/
def readTexts (depth : Nat) (path : Path) : Reader (List String) :=
  readList path <|
    match depth with
    | 0 => none
    | _ + 1 => some fun i => readText (.index i :: path)

/-- Reads a list of values of any type. -/
def readValues (depth : Nat) (path : Path) : Reader (List Json) :=
  readList path <|
    match depth with
    | 0 => none
    | d + 1 => some fun i => readValue d (.index i :: path)

mutual

/-- Reads a schema. -/
def read : (depth : Nat) → Path → Reader Schema
  | 0, path => readRecord (σ := Schema) record {} path none
  | d + 1, path => readRecord (σ := Schema) record {} path <| some fun field path draft =>
    match field with
    | .title => (readOptional path (readText path)).map fun x => { draft with title := x }
    | .description =>
      (readOptional path (readText path)).map fun x => { draft with description := x }
    | .type =>
      (readOptional path (readChoice "SchemaTypes" TypeChoice.ofJson? d path)).map fun x =>
        { draft with type := x }
    | .properties => (readNamed d path).map fun x => { draft with properties := x }
    | .required => (readTexts d path).map fun x => { draft with required := x }
    | .items => (readOptional path (read d path)).map fun x => { draft with items := x }
    | .additionalProperties =>
      (readOptional path (readChoice "AdditionalProperties" Additional.ofJson? d path)).map fun x =>
        { draft with additionalProperties := x }
    | .definitions => (readNamed d path).map fun x => { draft with definitions := x }
    | .reference => (readOptional path (readText path)).map fun x => { draft with reference := x }
    | .enumeration =>
      (readOptional path (readValues d path)).map fun x => { draft with enumeration := x }
    | .format => (readOptional path (readText path)).map fun x => { draft with format := x }

/-- Reads named schemas. Of schemas with the same name the last one counts. -/
def readNamed : (depth : Nat) → Path → Reader (List (String × Schema))
  | 0, path => readObject path none
  | d + 1, path =>
    (readObject path (some fun key => read d (.key key :: path))).map Fields.collapse

end

/-- The schema in a document. -/
def ofText (s : String) : Except Fault Schema := readDocument (read maxDepth []) s

end Schema

end Classwright
