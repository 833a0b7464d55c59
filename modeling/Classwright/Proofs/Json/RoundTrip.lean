import Mathlib.Data.List.Forall2
import Classwright.Json.Reader
import Classwright.Proofs.Json.Induction
import Classwright.Proofs.Json.Tokens

/-!
# Printed values are read back

A reader that is given a printed value and what follows it gives what the value stands for, and leaves
what follows (`ReadsBack`). This is said once for each way in which readers are put together: lists,
objects, records and values that may be absent. For readers of plain values it comes to the identity
(`readsBack_readRaw`, `readsBack_readValue`).

Not every value comes back. Lists and objects must not nest deeper than the reader allows (`nesting`),
and numbers have to be whole (`wholeNumbers`): a double is printed exactly, but reading it rounds.
-/

namespace Classwright.Json

/-! ## Which values come back -/

/-- One step of `nesting`. -/
def nestingStep (v : Json) (items : List Nat) (fields : Fields Nat) : Nat :=
  match v with
  | list _ => items.foldr max 0 + 1
  | object _ => (fields.map Prod.snd).foldr max 0 + 1
  | _ => 0

/-- How deep lists and objects nest in a value. -/
def nesting : Json → Nat := walk nestingStep

theorem foldr_max_le_iff (l : List Nat) (n : Nat) : l.foldr max 0 ≤ n ↔ ∀ k ∈ l, k ≤ n := by
  induction l with
  | nil => simp
  | cons k l ih => rw [List.foldr_cons, Nat.max_le, ih, List.forall_mem_cons]

theorem nesting_list {items : List Json} {n : Nat} :
    (list items).nesting ≤ n + 1 ↔ ∀ v ∈ items, v.nesting ≤ n := by
  have hstep : (list items).nesting = (walkItems nestingStep items).foldr max 0 + 1 := rfl
  rw [hstep, walkItems_eq_map, Nat.add_le_add_iff_right, foldr_max_le_iff]
  simp [nesting]

theorem nesting_object {fields : List (String × Json)} {n : Nat} :
    (object fields).nesting ≤ n + 1 ↔ ∀ f ∈ fields, f.2.nesting ≤ n := by
  have hstep : (object fields).nesting =
      ((walkFields nestingStep fields).map Prod.snd).foldr max 0 + 1 := rfl
  rw [hstep, walkFields_eq_map, Nat.add_le_add_iff_right, foldr_max_le_iff, List.map_map,
    List.forall_mem_map]
  exact Iff.rfl

/-- Whether a value is no number but a whole one of up to 64 bits. -/
def isWhole : Json → Bool
  | number (.integer n) => Number.fits n
  | number (.double _) => false
  | _ => true

/-- One step of `wholeNumbers`. -/
def wholeStep (v : Json) (items : List Bool) (fields : Fields Bool) : Bool :=
  v.isWhole && items.all id && fields.all Prod.snd

/-- Whether all numbers in a value are whole ones of up to 64 bits. -/
def wholeNumbers : Json → Bool := walk wholeStep

theorem wholeNumbers_list {items : List Json} :
    (list items).wholeNumbers = true ↔ ∀ v ∈ items, v.wholeNumbers = true := by
  have hstep : (list items).wholeNumbers = wholeStep (list items) (walkItems wholeStep items) [] := rfl
  rw [hstep, walkItems_eq_map]
  simp [wholeStep, isWhole, wholeNumbers]

theorem wholeNumbers_object {fields : List (String × Json)} :
    (object fields).wholeNumbers = true ↔ ∀ f ∈ fields, f.2.wholeNumbers = true := by
  have hstep : (object fields).wholeNumbers =
      wholeStep (object fields) [] (walkFields wholeStep fields) := rfl
  rw [hstep, walkFields_eq_mapValues]
  simp [wholeStep, isWhole, wholeNumbers, Fields.mapValues]

theorem wholeNumbers_integer {n : Int} (h : (number (.integer n)).wholeNumbers = true) :
    Number.fits n = true := by
  have hstep : (number (.integer n)).wholeNumbers = (Number.fits n && true && true) := rfl
  rw [hstep] at h
  simpa using h

/-! ## Printed values -/

/-- A printed value starts with a character of its own: no blank, and nothing that ends a list. -/
theorem exists_print {v : Json} (h : v.wholeNumbers = true) (rest : List Char) :
    ∃ c r, print v rest = c :: r ∧ isSpace c = false ∧ c ≠ ']' ∧ (v.isNull = false → c ≠ 'n') := by
  cases v with
  | null => exact ⟨_, _, rfl, by decide, by decide, fun h => nomatch h⟩
  | bool b => cases b <;> exact ⟨_, _, rfl, by decide, by decide, fun _ => by decide⟩
  | number n =>
    cases n with
    | double x => cases h
    | integer n =>
      obtain ⟨c, r, hrender, hc⟩ := exists_render_integer n
      refine ⟨c, r ++ rest, by rw [print, hrender, List.cons_append], ?_⟩
      have hother : (c ≠ ' ' ∧ c ≠ '\n' ∧ c ≠ '\t' ∧ c ≠ '\r') ∧ c ≠ ']' ∧ c ≠ 'n' := by
        refine ⟨⟨?_, ?_, ?_, ?_⟩, ?_, ?_⟩ <;> (rintro rfl; revert hc; decide)
      exact ⟨by simp [isSpace, hother.1], hother.2.1, fun _ => hother.2.2⟩
  | text s => exact ⟨_, _, rfl, by decide, by decide, fun _ => by decide⟩
  | list items => exact ⟨_, _, rfl, by decide, by decide, fun _ => by decide⟩
  | object fields => exact ⟨_, _, rfl, by decide, by decide, fun _ => by decide⟩

theorem skipSpace_cons {c : Char} (h : isSpace c = false) (r : List Char) :
    skipSpace (c :: r) = c :: r := by
  simp [skipSpace, h]

theorem skipSpace_print {v : Json} (h : v.wholeNumbers = true) (rest : List Char) :
    skipSpace (print v rest) = print v rest := by
  obtain ⟨c, r, hprint, hspace, -⟩ := exists_print h rest
  rw [hprint, skipSpace_cons hspace]

theorem endsNumber_cons {c : Char} (h : c.isDigit = false ∧ c ≠ '.' ∧ c ≠ 'e' ∧ c ≠ 'E')
    (r : List Char) : EndsNumber (c :: r) := by
  intro d hd
  cases hd
  exact h

/-! ## Readers -/

variable {α β σ κ : Type}

/-- Whether a reader gives `a` for a printed value, and leaves what follows it. -/
def ReadsBack (read : Reader α) (v : Json) (a : α) : Prop :=
  ∀ rest, EndsNumber rest → Takes (read (print v rest)) a rest

theorem ReadsBack.map {read : Reader α} {v : Json} {a : α} (h : ReadsBack read v a) (f : α → β) :
    ReadsBack (read.map f) v (f a) := by
  intro rest hrest
  exact (h rest hrest).map f

/-- A printed value is read back as a text of its own. -/
theorem ReadsBack.readDocument {read : Reader α} {v : Json} {a : α} (h : ReadsBack read v a) :
    readDocument read v.render = .ok a := by
  obtain ⟨hshorter, hread⟩ := h [] (by intro c hc; cases hc)
  unfold Json.readDocument render
  rw [String.toList_ofList, hread]
  rfl

theorem readsBack_readText (path : Path) (text : String) : ReadsBack (readText path) (.text text) text := by
  intro rest _
  obtain ⟨hshorter, hstring⟩ := takes_string text rest
  have hskip : skipSpace (print (.text text) rest) = '"' :: printBody text.toList rest :=
    skipSpace_cons rfl _
  unfold readText
  split
  · next r hquote =>
    rw [hskip] at hquote
    cases hquote
    rw [hstring]
    exact ⟨_, rfl⟩
  · next hother => exact absurd hskip (hother _)

theorem readsBack_readOptional {read : Reader α} {v : Json} {a : α} (path : Path)
    (hwhole : v.wholeNumbers = true) (hnull : v.isNull = false) (h : ReadsBack read v a) :
    ReadsBack (readOptional path read) v (some a) := by
  intro rest hrest
  obtain ⟨c, r, hprint, -, -, hc⟩ := exists_print hwhole rest
  obtain ⟨hshorter, hread⟩ := h rest hrest
  unfold readOptional
  split
  · next r' hn =>
    rw [skipSpace_print hwhole, hprint] at hn
    cases hn
    exact absurd rfl (hc hnull)
  · rw [hread]
    exact ⟨hshorter, rfl⟩

/-! ### Lists -/

theorem nextItem_closed (first : Bool) (rest : List Char) :
    ∃ h, nextItem first (']' :: rest) = .ok (.closed rest h) := by
  unfold nextItem
  split
  · next hnil => cases hnil
  · next c r hcons =>
    rw [skipSpace_cons rfl] at hcons
    cases hcons
    exact ⟨Nat.lt_succ_self _, if_pos rfl⟩

/-- Before the first item nothing is skipped. -/
theorem nextItem_first {v : Json} (hwhole : v.wholeNumbers = true) (rest : List Char) :
    ∃ h, nextItem true (print v rest) = .ok (.more (print v rest) h) := by
  obtain ⟨c, r, hprint, hspace, hc, -⟩ := exists_print hwhole rest
  rw [hprint]
  unfold nextItem
  split
  · next hnil => rw [skipSpace_cons hspace] at hnil; cases hnil
  · next c' r' hcons =>
    rw [skipSpace_cons hspace] at hcons
    cases hcons
    rw [if_neg hc, if_pos rfl]
    exact ⟨Nat.le_refl _, rfl⟩

/-- Before the others a comma is skipped. -/
theorem nextItem_comma {v : Json} (hwhole : v.wholeNumbers = true) (rest : List Char) :
    ∃ h, nextItem false (',' :: print v rest) = .ok (.more (print v rest) h) := by
  obtain ⟨c, r, hprint, hspace, hc, -⟩ := exists_print hwhole rest
  rw [hprint]
  unfold nextItem
  split
  · next hnil => cases hnil
  · next c' r' hcons =>
    rw [skipSpace_cons rfl] at hcons
    cases hcons
    rw [if_neg (by decide), if_neg (by decide), if_pos rfl]
    split
    · next hnil => rw [skipSpace_cons hspace] at hnil; cases hnil
    · next hbracket =>
      rw [skipSpace_cons hspace] at hbracket
      cases hbracket
      exact absurd rfl hc
    · exact ⟨Nat.le_succ _, rfl⟩

/-- What follows an item ends a number: a comma or a bracket. -/
theorem endsNumber_printItems (items : List Json) (rest : List Char) :
    EndsNumber (printItems items false (']' :: rest)) := by
  cases items with
  | nil => exact endsNumber_cons (by decide) _
  | cons v items => exact endsNumber_cons (by decide) _

/-- The items of a list, after those in `done`. By induction on the items; the text starts with a comma
unless no item has been read. -/
theorem takes_itemsFrom {path : Path} {item : Nat → Reader α} {items : List Json} {values : List α}
    (h : List.Forall₂ (fun v a => v.wholeNumbers = true ∧ ∀ i, ReadsBack (item i) v a) items values)
    {s₀ s rest : List Char} (index : Nat) (done : List α)
    (hs : s = printItems items (index == 0) (']' :: rest)) (hle : s.length ≤ s₀.length) :
    Takes (itemsFrom path item index done s hle) (done.reverse ++ values) rest := by
  induction h generalizing s index done with
  | nil =>
    have hclosing : s = ']' :: rest := hs
    subst hclosing
    obtain ⟨hclosed, hnext⟩ := nextItem_closed (index == 0) rest
    rw [itemsFrom, hnext, List.append_nil]
    exact ⟨_, rfl⟩
  | @cons v a items values hitem hrest ih =>
    obtain ⟨hwhole, hread⟩ := hitem
    have hnext : ∃ h, nextItem (index == 0) s =
        .ok (.more (print v (printItems items false (']' :: rest))) h) := by
      subst hs
      cases index == 0 with
      | true => exact nextItem_first hwhole _
      | false => exact nextItem_comma hwhole _
    obtain ⟨hmore, hnext⟩ := hnext
    obtain ⟨hshorter, hitem⟩ := hread index _ (endsNumber_printItems items rest)
    rw [itemsFrom, hnext]
    simp only [hitem]
    have hothers := ih (index + 1) (a :: done) rfl
      (Nat.le_trans (Nat.le_of_lt hshorter) (Nat.le_trans hmore hle))
    rwa [List.reverse_cons, List.append_assoc, List.singleton_append] at hothers

theorem readsBack_readList {path : Path} {item : Nat → Reader α} {items : List Json} {values : List α}
    (h : List.Forall₂ (fun v a => v.wholeNumbers = true ∧ ∀ i, ReadsBack (item i) v a) items values) :
    ReadsBack (readList path (some item)) (.list items) values := by
  intro rest _
  have hskip : skipSpace (print (.list items) rest) = print (.list items) rest := skipSpace_cons rfl _
  unfold readList
  split
  · next r hbracket =>
    rw [hskip] at hbracket
    cases hbracket
    exact takes_itemsFrom h 0 [] rfl _
  · next hother => exact absurd hskip (hother _)

/-! ### Objects -/

/-- The states that a loop over fields goes through when it reads printed fields. -/
inductive Fills (entry : σ → String → Except Fault (Reader σ)) : σ → Fields Json → σ → Prop where
  | nil (state : σ) : Fills entry state [] state
  | cons {state next last : σ} {key : String} {v : Json} {rest : Fields Json} {read : Reader σ}
      (hentry : entry state key = .ok read) (hread : ReadsBack read v next)
      (hrest : Fills entry next rest last) : Fills entry state ((key, v) :: rest) last

theorem nextKey_closed (first : Bool) (rest : List Char) :
    ∃ h, nextKey first ('}' :: rest) = .ok (.closed rest h) := by
  unfold nextKey
  split
  · next hnil => cases hnil
  · next c r hcons =>
    rw [skipSpace_cons rfl] at hcons
    cases hcons
    exact ⟨Nat.lt_succ_self _, if_pos rfl⟩

/-- Before a key its opening quote is skipped, and before that a comma, unless it is the first key. -/
theorem nextKey_quote (first : Bool) (rest : List Char) :
    ∃ h, nextKey first (if first then '"' :: rest else ',' :: '"' :: rest) = .ok (.more rest h) := by
  cases first with
  | true =>
    rw [if_pos rfl]
    unfold nextKey
    split
    · next hnil => cases hnil
    · next c r hcons =>
      rw [skipSpace_cons rfl] at hcons
      cases hcons
      exact ⟨Nat.le_succ _, rfl⟩
  | false =>
    rw [if_neg (by decide)]
    unfold nextKey
    split
    · next hnil => cases hnil
    · next c r hcons =>
      rw [skipSpace_cons rfl] at hcons
      cases hcons
      rw [if_neg (by decide), if_neg (by decide), if_pos rfl]
      split
      · next hnil => cases hnil
      · next r' hquote =>
        rw [skipSpace_cons rfl] at hquote
        cases hquote
        exact ⟨by simp; omega, rfl⟩
      · next hbrace => cases hbrace
      · next hquote _ => exact absurd (skipSpace_cons rfl _) (hquote _)

theorem takes_colon (rest : List Char) : Takes (colon (':' :: rest)) () rest := by
  unfold colon
  split
  · next hnil => cases hnil
  · next r hcolon =>
    rw [skipSpace_cons rfl] at hcolon
    cases hcolon
    exact ⟨_, rfl⟩
  · next hother => exact absurd (skipSpace_cons rfl _) (hother _)

theorem endsNumber_printFields (fields : Fields Json) (rest : List Char) :
    EndsNumber (printFields fields false ('}' :: rest)) := by
  cases fields with
  | nil => exact endsNumber_cons (by decide) _
  | cons f fields => exact endsNumber_cons (by decide) _

/-- The fields of an object go through their states. By induction on the states, as for lists. -/
theorem takes_fieldsFrom {path : Path} {entry : σ → String → Except Fault (Reader σ)} {state last : σ}
    {fields : Fields Json} (h : Fills entry state fields last) {s₀ s rest : List Char} (first : Bool)
    (hs : s = printFields fields first ('}' :: rest)) (hle : s.length ≤ s₀.length) :
    Takes (fieldsFrom path entry first state s hle) last rest := by
  induction h generalizing s first with
  | nil state =>
    have hclosing : s = '}' :: rest := hs
    subst hclosing
    obtain ⟨hclosed, hnext⟩ := nextKey_closed first rest
    rw [fieldsFrom, hnext]
    exact ⟨_, rfl⟩
  | @cons state next last key v fields read hentry hread _ ih =>
    obtain ⟨hkey, hstring⟩ := takes_string key (':' :: print v (printFields fields false ('}' :: rest)))
    obtain ⟨hcolon, hafter⟩ := takes_colon (print v (printFields fields false ('}' :: rest)))
    obtain ⟨hvalue, hv⟩ := hread _ (endsNumber_printFields fields rest)
    obtain ⟨hmore, hnext⟩ := nextKey_quote first
      (printBody key.toList (':' :: print v (printFields fields false ('}' :: rest))))
    have hprint : s = if first then
        '"' :: printBody key.toList (':' :: print v (printFields fields false ('}' :: rest)))
      else ',' :: '"' :: printBody key.toList
        (':' :: print v (printFields fields false ('}' :: rest))) := hs
    subst hprint
    rw [fieldsFrom, hnext]
    simp only [hstring, hentry, hafter, hv]
    exact ih false rfl _

/-- The states of an object: the fields read so far, the last one first. -/
theorem fills_object {field : String → Reader α} {fields : Fields Json} {values : Fields α}
    (h : List.Forall₂ (fun f a => f.1 = a.1 ∧ ReadsBack (field f.1) f.2 a.2) fields values)
    (done : Fields α) : Fills (fun done key => .ok ((field key).map fun v => (key, v) :: done))
      done fields (values.reverse ++ done) := by
  induction h generalizing done with
  | nil => exact Fills.nil done
  | @cons f a fields values hfield _ ih =>
    obtain ⟨key, v⟩ := f
    obtain ⟨key', x⟩ := a
    obtain ⟨rfl, hread⟩ : key = key' ∧ ReadsBack (field key) v x := hfield
    rw [List.reverse_cons, List.append_assoc, List.singleton_append]
    exact Fills.cons rfl (hread.map _) (ih ((key, x) :: done))

theorem readsBack_readObject {path : Path} {field : String → Reader α} {fields : Fields Json}
    {values : Fields α}
    (h : List.Forall₂ (fun f a => f.1 = a.1 ∧ ReadsBack (field f.1) f.2 a.2) fields values) :
    ReadsBack (readObject path (some field)) (.object fields) values := by
  intro rest _
  have hskip : skipSpace (print (.object fields) rest) = print (.object fields) rest :=
    skipSpace_cons rfl _
  unfold readObject
  split
  · next r hbrace =>
    rw [hskip] at hbrace
    cases hbrace
    rw [← List.reverse_reverse values, ← List.append_nil values.reverse]
    exact (takes_fieldsFrom (fills_object h []) true rfl _).map List.reverse
  · next hother => exact absurd hskip (hother _)

theorem readsBack_readRecord {type : RecordType κ} {default last : σ} {path : Path}
    {assign : Assign κ σ} {fields : Fields Json} {seen : List String}
    (h : Fills (recordEntry type assign path) ([], default) fields (seen, last)) :
    ReadsBack (readRecord type default path (some assign)) (.object fields) last := by
  intro rest _
  have hskip : skipSpace (print (.object fields) rest) = print (.object fields) rest :=
    skipSpace_cons rfl _
  unfold readRecord
  split
  · next hbracket =>
    rw [hskip] at hbracket
    cases hbracket
  · next r hbrace =>
    rw [hskip] at hbrace
    cases hbrace
    exact (takes_fieldsFrom h true rfl _).map Prod.snd
  · next hother => exact absurd hskip (hother _)

/-- One more field of a record. -/
theorem Fills.field {type : RecordType κ} {assign : Assign κ σ} {path : Path} {seen : List String}
    {draft next : σ} {last : List String × σ} {key : String} {field : κ} {v : Json} {rest : Fields Json}
    (hget : type.fields.get? key = some field) (hnew : key ∉ seen)
    (hread : ReadsBack (assign field (.key key :: path) draft) v next)
    (hrest : Fills (recordEntry type assign path) (key :: seen, next) rest last) :
    Fills (recordEntry type assign path) (seen, draft) ((key, v) :: rest) last := by
  refine Fills.cons ?_ (hread.map fun draft => (key :: seen, draft)) hrest
  unfold recordEntry
  rw [hget]
  exact if_neg (by simpa using hnew)

/-! ### Values of any type -/

theorem takes_scalar {x : Scalar} (hwhole : x.toJson.wholeNumbers = true) {rest : List Char}
    (hrest : EndsNumber rest) : Takes (scalar (print x.toJson rest)) x rest := by
  cases x with
  | null => exact ⟨by simp [Scalar.toJson, print]; omega, rfl⟩
  | bool b => cases b <;> exact ⟨by simp [Scalar.toJson, print]; omega, rfl⟩
  | number n =>
    cases n with
    | double x => cases hwhole
    | integer n => exact takes_scalar_integer (wholeNumbers_integer hwhole) hrest
  | text s =>
    obtain ⟨hshorter, hstring⟩ := takes_string s rest
    have hscalar : scalar (print (.text s) rest) = string (printBody s.toList rest) >>= fun body =>
        .ok ((body.weaken (Nat.le_succ _)).map .text) := rfl
    rw [Scalar.toJson, hscalar, hstring]
    exact ⟨_, rfl⟩

theorem readsBack_readRaw_scalar {x : Scalar} (hwhole : x.toJson.wholeNumbers = true) (depth : Nat)
    (path : Path) : ReadsBack (readRaw depth path) x.toJson x.toJson := by
  intro rest hrest
  have hscalar := takes_scalar hwhole hrest
  rw [← skipSpace_print hwhole] at hscalar
  unfold readRaw
  split
  -- no scalar starts with a bracket or a brace
  · next hbracket =>
    rw [hbracket] at hscalar
    obtain ⟨_, hscalar⟩ := hscalar
    cases hscalar
  · next hbrace =>
    rw [hbrace] at hscalar
    obtain ⟨_, hscalar⟩ := hscalar
    cases hscalar
  · obtain ⟨hshorter, hscalar⟩ := hscalar
    rw [hscalar]
    exact ⟨_, rfl⟩

/-- **Values are read back.** By induction on the value; the depth that is left goes down with it. -/
theorem readsBack_readRaw {v : Json} (hwhole : v.wholeNumbers = true) {depth : Nat}
    (hdepth : v.nesting ≤ depth) (path : Path) : ReadsBack (readRaw depth path) v v := by
  induction v generalizing depth path with
  | null => exact readsBack_readRaw_scalar (x := .null) hwhole depth path
  | bool b => exact readsBack_readRaw_scalar (x := .bool b) hwhole depth path
  | number n => exact readsBack_readRaw_scalar (x := .number n) hwhole depth path
  | text s => exact readsBack_readRaw_scalar (x := .text s) hwhole depth path
  | list items ih =>
    cases depth with
    | zero => cases hdepth
    | succ depth =>
      rw [wholeNumbers_list] at hwhole
      rw [nesting_list] at hdepth
      have hlist : ReadsBack (readList path (some fun i => readRaw depth (.index i :: path)))
          (.list items) items := by
        refine readsBack_readList (List.forall₂_same.2 fun v hv => ⟨hwhole v hv, fun i => ?_⟩)
        exact ih v hv (hwhole v hv) (hdepth v hv) _
      intro rest hrest
      have hraw : readRaw (depth + 1) path (print (.list items) rest) =
          Reader.map .list (readList path (some fun i => readRaw depth (.index i :: path)))
            (print (.list items) rest) := by
        rw [readRaw]
        rfl
      rw [hraw]
      exact hlist.map Json.list rest hrest
  | object fields ih =>
    cases depth with
    | zero => cases hdepth
    | succ depth =>
      rw [wholeNumbers_object] at hwhole
      rw [nesting_object] at hdepth
      have hobject : ReadsBack (readObject path (some fun key => readRaw depth (.key key :: path)))
          (.object fields) fields := by
        refine readsBack_readObject (List.forall₂_same.2 fun f hf => ⟨rfl, ?_⟩)
        exact ih f hf (hwhole f hf) (hdepth f hf) _
      intro rest hrest
      have hraw : readRaw (depth + 1) path (print (.object fields) rest) =
          Reader.map .object (readObject path (some fun key => readRaw depth (.key key :: path)))
            (print (.object fields) rest) := by
        rw [readRaw]
        rfl
      rw [hraw]
      exact hobject.map Json.object rest hrest

end Classwright.Json

namespace Classwright

theorem Fields.collapse_eq_self {α : Type} {fields : Fields α} (h : fields.keys.Nodup) :
    Fields.collapse fields = fields := by
  -- every field is new to those that are done
  suffices hdone : ∀ done : Fields α, (done ++ fields).keys.Nodup →
      fields.foldl (fun done (f : String × α) => insert done f.1 f.2) done = done ++ fields from
    hdone [] h
  clear h
  induction fields with
  | nil => exact fun done _ => (List.append_nil done).symm
  | cons field rest ih =>
    intro done h
    have hnew : field.1 ∉ done.keys := by
      intro hmem
      rw [keys, List.map_append, List.nodup_append] at h
      exact h.2.2 _ hmem _ List.mem_cons_self rfl
    rw [List.foldl_cons, insert_of_not_mem hnew, ih _ (by rwa [List.append_assoc]), List.append_assoc]
    rfl

namespace Json

theorem collapse_eq_self {v : Json} (h : v.distinctKeys = true) : v.collapse = v := by
  induction v with
  | null => rfl
  | bool b => rfl
  | number n => rfl
  | text s => rfl
  | list items ih =>
    rw [distinctKeys_list] at h
    rw [collapse, collapseItems_eq_map, List.map_congr_left fun v hv => ih v hv (h v hv), List.map_id']
  | object fields ih =>
    rw [distinctKeys_object] at h
    have hvalues : Fields.mapValues collapse fields = fields := by
      unfold Fields.mapValues
      rw [List.map_congr_left fun f hf => congrArg (Prod.mk f.1) (ih f hf (h.2 f hf)), List.map_id']
    rw [collapse, collapseFields_eq_mapValues, hvalues, Fields.collapse_eq_self h.1]

theorem readsBack_readValue {v : Json} (hkeys : v.distinctKeys = true) (hwhole : v.wholeNumbers = true)
    {depth : Nat} (hdepth : v.nesting ≤ depth) (path : Path) :
    ReadsBack (readValue depth path) v v := by
  have h := (readsBack_readRaw hwhole hdepth path).map collapse
  rwa [collapse_eq_self hkeys] at h

end Json

end Classwright
