import Classwright.Hint.Basic
import Classwright.Json.Decode
import Classwright.Json.Printer
import Classwright.Json.Reader
import Classwright.Warning

/-!
# Hint documents

A hint document maps identifiers to lists of entries, and an entry names a kind of hint and its
arguments. Kinds are open: a `HintRegistry` maps each known kind to the function that decodes its
arguments. An entry that cannot be decoded does not spoil the others: a `HintReport` keeps what was
decoded and says what was not.
-/

namespace Classwright

open Json

/-- Decodes the arguments of one kind of hint. -/
abbrev HintDecoder := Json → Except Fault Hint

/-- The known kinds of hints. -/
structure HintRegistry where
  decoders : Fields HintDecoder := []

/-- Why an entry is not a hint. -/
inductive HintCause where
  /-- The value for an identifier is not a list. -/
  | notAList
  | unknownKind (kind : String)
  | malformed (fault : Fault)
deriving DecidableEq, Repr

/-- An entry that is not a hint. -/
structure HintFault where
  schemaId : String
  payload : Json
  cause : HintCause
deriving Repr

/-- The wording of a cause. -/
def HintCause.reason : HintCause → String
  | notAList => "expected an array of hint entries"
  | unknownKind kind => "unknown hint kind '" ++ kind ++ "'"
  | malformed fault => fault.message

/-- The wording of a fault. -/
def HintFault.message (f : HintFault) : String :=
  "hint for '" ++ f.schemaId ++ "' could not be decoded (" ++ f.cause.reason ++ "): " ++
    f.payload.render

/-- The wording of all faults of a document. -/
def HintFault.report (faults : List HintFault) : String :=
  toString faults.length ++ " hint entr(y/ies) could not be decoded:" ++
    String.join (faults.map fun f => "\n  " ++ f.message)

/-! ### Kinds of hints -/

/-- The kinds of hints with arguments of their own. -/
inductive HintKind where
  | className
  | baseTypes
  | propertyName
  | comparer
  | dictionary
  | modifiers
deriving DecidableEq, Repr

namespace HintKind

/-- All kinds. -/
def all : List HintKind := [className, baseTypes, propertyName, comparer, dictionary, modifiers]

/-- The name of a kind in hint documents. -/
def name : HintKind → String
  | className => "ClassNameHint"
  | baseTypes => "BaseTypeHint"
  | propertyName => "PropertyNameHint"
  | comparer => "ComparerHint"
  | dictionary => "DictionaryHint"
  | modifiers => "PropertyModifiersHint"

/-- Decodes the arguments of a kind. Absent arguments are the same as none at all. -/
def decode (kind : HintKind) : HintDecoder := fun arguments =>
  let arguments := if arguments.isNull then .object [] else arguments
  let text (field : String) : SoleField String := ⟨kind.name, field, decodeText, none⟩
  let texts (field : String) : SoleField (List String) :=
    ⟨kind.name, field, decodeList decodeText, none⟩
  match kind with
  | className => ((text "className").ofJson arguments).map .className
  | baseTypes => ((texts "baseTypeNames").ofJson arguments).map .baseTypes
  | propertyName => ((text "dotNetPropertyName").ofJson arguments).map .propertyName
  | comparer => ((text "comparerName").ofJson arguments).map .comparer
  | dictionary =>
    let valueType : SoleField (Option String) :=
      ⟨kind.name, "valueType", decodeOptionalText, some none⟩
    (valueType.ofJson arguments).map .dictionary
  | modifiers => ((texts "modifiers").ofJson arguments).map .modifiers

end HintKind

/-! ### Entries -/

/-- An entry of a hint document: a kind and arguments. -/
structure HintEntry where
  kind : String
  arguments : Json
deriving Repr

/-- The name of the record that an entry is. -/
def HintEntry.recordName : String := "RawHint"

/-- The entry that a value stands for: an object, or a list of the kind and the arguments. Other
fields of the object are ignored. -/
def HintEntry.ofJson (v : Json) : Except Fault HintEntry :=
  match v with
  | .object fields =>
    match Fields.get? fields "kind" with
    | none => .error ⟨[], .missingField "kind"⟩
    | some kind => do
      let kind ← decodeText [.key "kind"] kind
      .ok ⟨kind, (Fields.get? fields "arguments").getD .null⟩
  | .list [] => .error ⟨[], .tooFewItems 0 HintEntry.recordName 2⟩
  | .list (kind :: rest) => do
    let kind ← decodeText [.index 0] kind
    match rest with
    | [] => .ok ⟨kind, .null⟩
    | [arguments] => .ok ⟨kind, arguments⟩
    | _ => .error ⟨[], .tooManyItems (rest.length + 1)⟩
  | v => .error (misfit (.record HintEntry.recordName) [] v)

namespace HintRegistry

/-- No kinds. -/
def empty : HintRegistry := {}

/-- Makes a kind known. A kind that was known gets the new decoder. -/
def register (r : HintRegistry) (kind : String) (decoder : HintDecoder) : HintRegistry :=
  ⟨r.decoders.insert kind decoder⟩

/-- Makes a kind known whose arguments are kept as they are. -/
def registerExtension (r : HintRegistry) (kind : String) : HintRegistry :=
  r.register kind fun arguments => .ok (.extension kind arguments)

/-- The built-in kinds under their own names. -/
def standard : HintRegistry :=
  HintKind.all.foldl (fun r kind => r.register kind.name kind.decode) empty

/-- Whether a kind is known. -/
def isRegistered (r : HintRegistry) (kind : String) : Bool := r.decoders.contains kind

/-- The hint that an entry stands for. -/
def decode (r : HintRegistry) (schemaId : String) (entry : Json) : Except HintFault Hint :=
  match HintEntry.ofJson entry with
  | .error fault => .error ⟨schemaId, entry, .malformed fault⟩
  | .ok raw =>
    match r.decoders.get? raw.kind with
    | none => .error ⟨schemaId, entry, .unknownKind raw.kind⟩
    | some decoder =>
      match decoder raw.arguments with
      | .ok hint => .ok hint
      | .error fault => .error ⟨schemaId, entry, .malformed fault⟩

end HintRegistry

/-! ### Documents -/

/-- What a hint document holds: the hints, and the entries that are none. -/
structure HintReport where
  table : HintTable
  faults : List HintFault
deriving Repr

/-- The hints among the entries of one identifier, and the entries that are none. -/
def HintRegistry.decodeEntries (r : HintRegistry) (schemaId : String) :
    List Json → List Hint × List HintFault
  | [] => ([], [])
  | entry :: rest =>
    let (hints, faults) := r.decodeEntries schemaId rest
    match r.decode schemaId entry with
    | .ok hint => (hint :: hints, faults)
    | .error fault => (hints, fault :: faults)

/-- The hints in the fields of a document. An identifier without hints is left out. -/
def HintRegistry.loadFields (r : HintRegistry) : Fields Json → Fields (List Hint) × List HintFault
  | [] => ([], [])
  | (schemaId, v) :: rest =>
    let (entries, faults) := r.loadFields rest
    match v with
    | .list items =>
      let (hints, bad) := r.decodeEntries schemaId items
      (if hints.isEmpty then entries else (schemaId, hints) :: entries, bad ++ faults)
    | v => (entries, ⟨schemaId, v, .notAList⟩ :: faults)

/-- The fields of the hint document in a text. -/
def readHintFields (s : String) : Except Fault (Fields Json) :=
  let field (key : String) : Reader Json := readValue (maxDepth - 1) [.key key]
  readDocument ((readObject [] (some field)).map Fields.collapse) s

/-- The hints in a text. Only a text that is no object at all is refused. -/
def HintRegistry.load (r : HintRegistry) (s : String) : Except Fault HintReport := do
  let (entries, faults) := r.loadFields (← readHintFields s)
  .ok ⟨⟨entries⟩, faults⟩

namespace HintReport

/-- The hints, if every entry is one. -/
def strict (r : HintReport) : Except (List HintFault) HintTable :=
  if r.faults.isEmpty then .ok r.table else .error r.faults

/-- A warning for each entry that is dropped. -/
def warnings (r : HintReport) : List Warning :=
  r.faults.map fun f => .droppedHint f.schemaId f.cause.reason

end HintReport

end Classwright
