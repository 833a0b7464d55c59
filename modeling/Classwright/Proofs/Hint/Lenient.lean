import Classwright.Hint.Document
import Classwright.Proofs.Schema.Accepted

/-!
# What is kept of a hint document

A hint document is loaded entry by entry, and what cannot be decoded is reported and left out. So the
table is that of the *good part* of the document, which loads without a fault. This holds of every
registry, whatever its decoders do.

* **`HintRegistry.goodPart`**, **`HintRegistry.rejected`** — a document without what is no hint, and what was
  taken out, in order.
* **`loadFields_eq`** — a document is loaded field by field. This is the one induction over documents; all
  that follows is said of a single field.
* **`Reports`** — a report accounts for a document: every rejected item is a fault, and every other entry is
  one hint.
-/

namespace Classwright

open Json

namespace HintRegistry

variable (r : HintRegistry)

/-! ## Entries -/

/-- Whether an entry for an identifier is a hint. -/
def isHint (schemaId : String) (entry : Json) : Bool := (r.decode schemaId entry).isOk

/-- An entry is a hint, or there is a fault that names the identifier and shows the entry. -/
theorem decode_cases (schemaId : String) (entry : Json) :
    (∃ hint, r.decode schemaId entry = .ok hint) ∨
      ∃ cause, r.decode schemaId entry = .error ⟨schemaId, entry, cause⟩ := by
  unfold decode
  split
  · exact .inr ⟨_, rfl⟩
  · split
    · exact .inr ⟨_, rfl⟩
    · split
      · exact .inl ⟨_, rfl⟩
      · exact .inr ⟨_, rfl⟩

section

variable {r} {schemaId : String} {entry : Json} {hint : Hint} {fault : HintFault}

theorem isHint_of_ok (h : r.decode schemaId entry = .ok hint) : r.isHint schemaId entry = true := by
  rw [isHint, h]
  rfl

theorem isHint_of_error (h : r.decode schemaId entry = .error fault) :
    r.isHint schemaId entry = false := by
  rw [isHint, h]
  rfl

theorem decodeEntries_cons_ok (h : r.decode schemaId entry = .ok hint) (rest : List Json) :
    r.decodeEntries schemaId (entry :: rest) =
      (hint :: (r.decodeEntries schemaId rest).1, (r.decodeEntries schemaId rest).2) := by
  simp only [decodeEntries, h]

theorem decodeEntries_cons_error (h : r.decode schemaId entry = .error fault) (rest : List Json) :
    r.decodeEntries schemaId (entry :: rest) =
      ((r.decodeEntries schemaId rest).1, fault :: (r.decodeEntries schemaId rest).2) := by
  simp only [decodeEntries, h]

end

/-- The entries that are hints give the same hints, and nothing else. -/
theorem decodeEntries_filter (schemaId : String) (items : List Json) :
    r.decodeEntries schemaId (items.filter (r.isHint schemaId)) =
      ((r.decodeEntries schemaId items).1, []) := by
  induction items with
  | nil => rfl
  | cons entry rest ih =>
    obtain ⟨hint, h⟩ | ⟨cause, h⟩ := r.decode_cases schemaId entry
    · rw [List.filter_cons_of_pos (isHint_of_ok h), decodeEntries_cons_ok h, decodeEntries_cons_ok h, ih]
    · rw [List.filter_cons_of_neg (by simp [isHint_of_error h]), decodeEntries_cons_error h, ih]

/-- Each entry that is a hint gives one hint, in order. -/
theorem forall₂_decodeEntries (schemaId : String) (items : List Json) :
    List.Forall₂ (fun entry hint => r.decode schemaId entry = .ok hint)
      (items.filter (r.isHint schemaId)) (r.decodeEntries schemaId items).1 := by
  induction items with
  | nil => exact .nil
  | cons entry rest ih =>
    obtain ⟨hint, h⟩ | ⟨cause, h⟩ := r.decode_cases schemaId entry
    · rw [List.filter_cons_of_pos (isHint_of_ok h), decodeEntries_cons_ok h]
      exact .cons h ih
    · rw [List.filter_cons_of_neg (by simp [isHint_of_error h]), decodeEntries_cons_error h]
      exact ih

/-- The other entries are reported, in order. -/
theorem reported_decodeEntries (schemaId : String) (items : List Json) :
    (r.decodeEntries schemaId items).2.map (fun f => (f.schemaId, f.payload)) =
      (items.filter (!r.isHint schemaId ·)).map (schemaId, ·) := by
  induction items with
  | nil => rfl
  | cons entry rest ih =>
    obtain ⟨hint, h⟩ | ⟨cause, h⟩ := r.decode_cases schemaId entry
    · rw [List.filter_cons_of_neg (by simp [isHint_of_ok h]), decodeEntries_cons_ok h, ih]
    · rw [List.filter_cons_of_pos (by simp [isHint_of_error h]), decodeEntries_cons_error h, List.map_cons,
        ih, List.map_cons]

theorem error_of_mem_decodeEntries {schemaId : String} {items : List Json} {f : HintFault}
    (hf : f ∈ (r.decodeEntries schemaId items).2) : r.decode f.schemaId f.payload = .error f := by
  induction items with
  | nil => cases hf
  | cons entry rest ih =>
    obtain ⟨hint, h⟩ | ⟨cause, h⟩ := r.decode_cases schemaId entry
    · rw [decodeEntries_cons_ok h] at hf
      exact ih hf
    · rw [decodeEntries_cons_error h] at hf
      rcases List.mem_cons.1 hf with rfl | hf
      · exact h
      · exact ih hf

/-! ## Fields -/

/-- A field without the entries that are no hints. A field that is no list at all is left out. -/
def goodField (f : String × Json) : Option (String × Json) :=
  match f.2 with
  | .list items => some (f.1, .list (items.filter (r.isHint f.1)))
  | _ => none

/-- What is left out of a field, under its identifier. -/
def rejectedIn (f : String × Json) : List (String × Json) :=
  match f.2 with
  | .list items => (items.filter (!r.isHint f.1 ·)).map (f.1, ·)
  | _ => [f]

/-- The entry of a table for an identifier, if it has hints. -/
def tableEntry (schemaId : String) : List Hint → Option (String × List Hint)
  | [] => none
  | hints => some (schemaId, hints)

/-- The hints in a field, if there are any. -/
def fieldHints (f : String × Json) : Option (String × List Hint) :=
  tableEntry f.1 (r.decodeEntries f.1 f.2.items).1

/-- The faults in a field. -/
def fieldFaults (f : String × Json) : List HintFault :=
  match f.2 with
  | .list items => (r.decodeEntries f.1 items).2
  | v => [⟨f.1, v, .notAList⟩]

theorem loadFields_eq (doc : Fields Json) :
    r.loadFields doc = (doc.filterMap r.fieldHints, doc.flatMap r.fieldFaults) := by
  induction doc with
  | nil => rfl
  | cons f rest ih =>
    obtain ⟨schemaId, v⟩ := f
    rw [List.filterMap_cons, List.flatMap_cons]
    cases v with
    | list items =>
      simp only [loadFields, ih, fieldHints, fieldFaults, Json.items]
      generalize r.decodeEntries schemaId items = decoded
      obtain ⟨hints, faults⟩ := decoded
      cases hints <;> rfl
    | _ =>
      rw [loadFields, ih]
      rfl

theorem fieldHints_of_goodField (f : String × Json) :
    (r.goodField f).bind r.fieldHints = r.fieldHints f := by
  obtain ⟨schemaId, v⟩ := f
  cases v with
  | list items =>
    simp only [goodField, Option.bind_some, fieldHints, Json.items, decodeEntries_filter]
  | _ => rfl

theorem fieldFaults_of_goodField {f g : String × Json} (h : r.goodField f = some g) :
    r.fieldFaults g = [] := by
  obtain ⟨schemaId, v⟩ := f
  cases v with
  | list items =>
    cases h
    simp only [fieldFaults, decodeEntries_filter]
  | _ => cases h

theorem goodField_eq_self {f : String × Json} (h : r.rejectedIn f = []) : r.goodField f = some f := by
  obtain ⟨schemaId, v⟩ := f
  cases v with
  | list items =>
    simp only [rejectedIn, List.map_eq_nil_iff, List.filter_eq_nil_iff] at h
    simp only [goodField]
    rw [List.filter_eq_self.2 fun entry hentry => by simpa using h entry hentry]
  | _ => cases h

theorem reported_fieldFaults (f : String × Json) :
    (r.fieldFaults f).map (fun f => (f.schemaId, f.payload)) = r.rejectedIn f := by
  obtain ⟨schemaId, v⟩ := f
  cases v with
  | list items => exact r.reported_decodeEntries schemaId items
  | _ => rfl

theorem cause_of_mem_fieldFaults {f : String × Json} {fault : HintFault} (h : fault ∈ r.fieldFaults f) :
    fault.cause = .notAList ∧ (fault.schemaId, fault.payload) = f ∨
      r.decode fault.schemaId fault.payload = .error fault := by
  obtain ⟨schemaId, v⟩ := f
  cases v with
  | list items => exact .inr (r.error_of_mem_decodeEntries h)
  | _ =>
    cases List.mem_singleton.1 h
    exact .inl ⟨rfl, rfl⟩

/-- A field of the good part and the hints of its identifier: one for each entry. -/
def Decodes (f : String × Json) (e : String × List Hint) : Prop :=
  e.1 = f.1 ∧ List.Forall₂ (fun entry hint => r.decode f.1 entry = .ok hint) f.2.items e.2

theorem rel_fieldHints (f : String × Json) :
    Option.Rel r.Decodes ((r.goodField f).filter fun g => !g.2.items.isEmpty) (r.fieldHints f) := by
  obtain ⟨schemaId, v⟩ := f
  cases v with
  | list items =>
    have hdecoded := r.forall₂_decodeEntries schemaId items
    simp only [goodField, fieldHints, Json.items, Option.filter_some]
    -- no entry is a hint just in case there is no hint
    cases hhints : (r.decodeEntries schemaId items).1 with
    | nil =>
      rw [hhints, List.forall₂_nil_right_iff] at hdecoded
      rw [hdecoded]
      exact .none
    | cons hint rest =>
      rw [hhints] at hdecoded
      obtain ⟨entry, good, -, -, hgood⟩ := List.forall₂_cons_right_iff.1 hdecoded
      rw [hgood] at hdecoded ⊢
      exact .some ⟨rfl, hdecoded⟩
  | _ => exact .none

/-! ## Documents -/

/-- A document without what is no hint. An identifier stays even if it has no entries left. -/
def goodPart (doc : Fields Json) : Fields Json := doc.filterMap r.goodField

/-- What is left out of a document: each item under its identifier, in order. -/
def rejected (doc : Fields Json) : List (String × Json) := doc.flatMap r.rejectedIn

/-- The report on a document that has been read. -/
def reportOn (doc : Fields Json) : HintReport := ⟨⟨(r.loadFields doc).1⟩, (r.loadFields doc).2⟩

theorem load_eq (src : String) : r.load src = (readHintFields src).map r.reportOn := by
  unfold load
  cases readHintFields src <;> rfl

/-- A report accounts for a document. -/
structure Reports (doc : Fields Json) (report : HintReport) : Prop where
  /-- What is rejected is reported, and nothing else. -/
  faults : report.faults.map (fun f => (f.schemaId, f.payload)) = r.rejected doc
  /-- A fault is that of a field that is no list, or the one that decoding its entry gives. -/
  causes : ∀ f ∈ report.faults, f.cause = .notAList ∧ (f.schemaId, f.payload) ∈ doc ∨
    r.decode f.schemaId f.payload = .error f
  /-- What is not rejected is decoded, entry by entry. -/
  entries : List.Forall₂ r.Decodes ((r.goodPart doc).filter fun f => !f.2.items.isEmpty)
    report.table.entries
  /-- Identifiers in the table have hints. -/
  nonempty : ∀ e ∈ report.table.entries, e.2 ≠ []

theorem reports_reportOn (doc : Fields Json) : r.Reports doc (r.reportOn doc) where
  faults := by
    simp only [reportOn, loadFields_eq, List.map_flatMap, reported_fieldFaults]
    rfl
  causes fault hfault := by
    simp only [reportOn, loadFields_eq] at hfault
    obtain ⟨f, hf, hfault⟩ := List.mem_flatMap.1 hfault
    obtain ⟨hcause, rfl⟩ | herror := r.cause_of_mem_fieldFaults hfault
    · exact .inl ⟨hcause, hf⟩
    · exact .inr herror
  entries := by
    simp only [reportOn, loadFields_eq, goodPart, List.filter_filterMap]
    refine List.rel_filterMap (R := Eq) (fun f g h => ?_) (List.forall₂_refl doc)
    cases h
    exact r.rel_fieldHints f
  nonempty e he := by
    simp only [reportOn, loadFields_eq] at he
    obtain ⟨f, -, hf⟩ := List.mem_filterMap.1 he
    unfold fieldHints at hf
    cases hhints : (r.decodeEntries f.1 f.2.items).1 with
    | nil =>
      rw [hhints] at hf
      cases hf
    | cons hint rest =>
      rw [hhints] at hf
      cases hf
      exact List.cons_ne_nil hint rest

/-- The good part has the same table and no faults. -/
theorem reportOn_goodPart (doc : Fields Json) :
    r.reportOn (r.goodPart doc) = ⟨(r.reportOn doc).table, []⟩ := by
  have hhints : (r.goodPart doc).filterMap r.fieldHints = doc.filterMap r.fieldHints := by
    rw [goodPart, List.filterMap_filterMap]
    exact List.filterMap_congr fun f _ => r.fieldHints_of_goodField f
  have hfaults : (r.goodPart doc).flatMap r.fieldFaults = [] := by
    refine List.flatMap_eq_nil_iff.2 fun g hg => ?_
    obtain ⟨f, -, hf⟩ := List.mem_filterMap.1 hg
    exact r.fieldFaults_of_goodField hf
  simp only [reportOn, loadFields_eq, hhints, hfaults]

theorem goodPart_eq_self {doc : Fields Json} (h : r.rejected doc = []) : r.goodPart doc = doc := by
  have hfields := List.flatMap_eq_nil_iff.1 h
  calc r.goodPart doc = doc.filterMap some :=
        List.filterMap_congr fun f hf => r.goodField_eq_self (hfields f hf)
    _ = doc := List.filterMap_some

/-- Nothing is lost in strict loading, so it fails as soon as there is something to leave out. -/
theorem strict_reportOn (doc : Fields Json) :
    (∃ table, (r.reportOn doc).strict = .ok table) ↔ r.goodPart doc = doc := by
  have hstrict : (∃ table, (r.reportOn doc).strict = .ok table) ↔ (r.reportOn doc).faults = [] := by
    unfold HintReport.strict
    cases (r.reportOn doc).faults with
    | nil => exact ⟨fun _ => rfl, fun _ => ⟨_, rfl⟩⟩
    | cons f rest => exact ⟨nofun, nofun⟩
  rw [hstrict]
  constructor
  · intro hfaults
    apply r.goodPart_eq_self
    rw [← (r.reports_reportOn doc).faults, hfaults]
    rfl
  · -- a document that is its own good part is loaded like one
    intro hgood
    rw [← hgood, reportOn_goodPart]

end HintRegistry

/-! ## Texts -/

/-- Reads a hint document. -/
def hintFieldsReader : Reader (Fields Json) :=
  (readObject [] (some fun key => readValue (maxDepth - 1) [.key key])).map Fields.collapse

/-- What is read as a hint document can be written as one. -/
theorem shaped_readHintFields {src : String} {doc : Fields Json} (h : readHintFields src = .ok doc) :
    Shaped maxDepth (.object doc) := by
  have hvalue (key : String) : (readValue (maxDepth - 1) [.key key]).Gives (Shaped (maxDepth - 1)) :=
    Reader.Gives.map fun s v hv => shaped_collapse (nesting_readRaw _ _ s v hv)
  have hreader : hintFieldsReader.Gives fun doc => Shaped maxDepth (.object doc) := by
    refine Reader.Gives.map fun s v hv => shaped_object.2 ⟨Fields.nodup_keys_collapse _, fun f hf => ?_⟩
    refine readObject_gives (fun read key hread => ?_) s v hv f (Fields.mem_of_mem_collapse hf)
    cases hread
    exact hvalue key
  exact readDocument_gives hreader h

/-- A document with whole numbers is read back. -/
theorem readHintFields_render {doc : Fields Json} (hshape : Shaped maxDepth (.object doc))
    (hwhole : (Json.object doc).wholeNumbers = true) :
    readHintFields (Json.object doc).render = .ok doc := by
  obtain ⟨hkeys, hvalues⟩ := shaped_object.1 hshape
  rw [wholeNumbers_object] at hwhole
  have hobject : ReadsBack (readObject [] (some fun key => readValue (maxDepth - 1) [.key key]))
      (.object doc) doc := by
    refine readsBack_readObject (List.forall₂_same.2 fun f hf => ⟨rfl, ?_⟩)
    exact readsBack_readValue (hvalues f hf).distinct (hwhole f hf) (hvalues f hf).nested _
  have hreader : ReadsBack hintFieldsReader (.object doc) doc := by
    have hcollapsed := hobject.map Fields.collapse
    rwa [Fields.collapse_eq_self hkeys] at hcollapsed
  exact hreader.readDocument

namespace HintRegistry

variable (r : HintRegistry)

/-- A good field has the identifier of its field and some of its entries. -/
theorem exists_of_goodField {f g : String × Json} (h : r.goodField f = some g) :
    g.1 = f.1 ∧ ∃ items kept, f.2 = .list items ∧ g.2 = .list kept ∧ kept ⊆ items := by
  obtain ⟨schemaId, v⟩ := f
  cases v with
  | list items =>
    cases h
    exact ⟨rfl, items, _, rfl, rfl, List.filter_subset_self items⟩
  | _ => cases h

theorem shaped_goodPart {doc : Fields Json} {depth : Nat} (h : Shaped (depth + 1) (.object doc)) :
    Shaped (depth + 1) (.object (r.goodPart doc)) := by
  rw [shaped_object] at h ⊢
  constructor
  · have hdistinct : doc.Pairwise fun f g => f.1 ≠ g.1 := List.pairwise_map.1 h.1
    refine List.pairwise_map.2 (List.Pairwise.filterMap _ (fun f g hne f' hf g' hg => ?_) hdistinct)
    rwa [(r.exists_of_goodField hf).1, (r.exists_of_goodField hg).1]
  · intro g hg
    obtain ⟨f, hf, hgood⟩ := List.mem_filterMap.1 hg
    obtain ⟨-, items, kept, hitems, hkept, hsub⟩ := r.exists_of_goodField hgood
    have hfield := h.2 f hf
    rw [hitems] at hfield
    rw [hkept]
    -- there was depth for a list, so there is depth for a shorter one
    cases depth with
    | zero => exact absurd hfield not_shaped_list_zero
    | succ depth => exact shaped_list.2 fun v hv => shaped_list.1 hfield v (hsub hv)

theorem wholeNumbers_goodPart {doc : Fields Json} (h : (Json.object doc).wholeNumbers = true) :
    (Json.object (r.goodPart doc)).wholeNumbers = true := by
  rw [wholeNumbers_object] at h ⊢
  intro g hg
  obtain ⟨f, hf, hgood⟩ := List.mem_filterMap.1 hg
  obtain ⟨-, items, kept, hitems, hkept, hsub⟩ := r.exists_of_goodField hgood
  have hfield := h f hf
  rw [hitems, wholeNumbers_list] at hfield
  rw [hkept, wholeNumbers_list]
  exact fun v hv => hfield v (hsub hv)

/-- **Lenient loading is strict loading of the good part.** A document always loads, and the report accounts
for it. Strict loading succeeds just in case nothing is left out. The good part loads without faults, and
strictly to the table of the report; if the numbers are whole, its printed form is a text for it. -/
theorem load_lenient {src : String} {doc : Fields Json} (hdoc : readHintFields src = .ok doc) :
    ∃ report, r.load src = .ok report ∧ r.Reports doc report ∧
      ((∃ table, report.strict = .ok table) ↔ r.goodPart doc = doc) ∧
      (r.reportOn (r.goodPart doc)).faults = [] ∧
      (r.reportOn (r.goodPart doc)).strict = .ok report.table ∧
      (∀ good, readHintFields good = .ok (r.goodPart doc) →
        r.load good = .ok (r.reportOn (r.goodPart doc))) ∧
      ((Json.object doc).wholeNumbers = true →
        readHintFields (Json.object (r.goodPart doc)).render = .ok (r.goodPart doc)) := by
  refine ⟨r.reportOn doc, ?_, r.reports_reportOn doc, r.strict_reportOn doc, ?_, ?_, ?_, ?_⟩
  · rw [load_eq, hdoc]
    rfl
  · rw [reportOn_goodPart]
  · rw [reportOn_goodPart]
    rfl
  · intro good hgood
    rw [load_eq, hgood]
    rfl
  · intro hwhole
    exact readHintFields_render (r.shaped_goodPart (shaped_readHintFields hdoc))
      (r.wholeNumbers_goodPart hwhole)

/-- Hints among entries of an unknown kind and without a kind, an identifier without any hint, and one
that has no list. -/
def mixedDocument : Fields Json := [
  ("Node", .list [
    .object [("kind", .text "NoSuchHint")],
    .object [("kind", .text "ClassNameHint"), ("arguments", .object [("className", .text "Tree")])],
    .number (.integer 3)]),
  ("Leaf", .list [.null]),
  ("Root", .text "ClassNameHint"),
  ("Edge", .list [.list [.text "DictionaryHint"]])]

theorem load_lenient_mixed :
    ∃ report, standard.load (Json.object mixedDocument).render = .ok report ∧
      report.table.entries.map Prod.fst = ["Node", "Edge"] ∧
      report.faults.map HintFault.schemaId = ["Node", "Node", "Leaf", "Root"] ∧
      ¬ ∃ table, report.strict = .ok table := by
  have hread : readHintFields (Json.object mixedDocument).render = .ok mixedDocument :=
    readHintFields_render ⟨by decide, by decide⟩ (by decide)
  obtain ⟨report, hload, hreport, hstrict, -⟩ := standard.load_lenient hread
  refine ⟨report, hload, ?_, ?_, ?_⟩
  · have hgood : ((standard.goodPart mixedDocument).filter fun f => !f.2.items.isEmpty).map Prod.fst =
        ["Node", "Edge"] := by
      decide
    have hids := hreport.entries.imp fun f e (h : standard.Decodes f e) => h.1.symm
    rw [← List.forall₂_map_right_iff, ← List.forall₂_map_left_iff, List.forall₂_eq_eq_eq] at hids
    exact hids.symm.trans hgood
  · have hrejected : (standard.rejected mixedDocument).map Prod.fst = ["Node", "Node", "Leaf", "Root"] := by
      decide
    rw [← hrejected, ← hreport.faults, List.map_map]
    rfl
  · exact fun h => absurd (congrArg List.length (hstrict.1 h)) (by decide)

end HintRegistry

end Classwright
