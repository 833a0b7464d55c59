import Classwright.Instance.Hash
import Classwright.Proofs.Instance.Equality
import Classwright.Proofs.Json.Hash

/-!
# Equal instances hash alike

Whatever the registry, the class and the values, two instances that are equal have one hash, and
finding it does not fail. The hashes of the leaves are arbitrary; of numbers it is only asked that
two which are in no order hash alike (`LeafHash.Lawful`).

* **`HashAgree`** is how results are related: both are there, and they are the same.
* **`foldlM_agree`** and **`addHashes_of_perm`** carry it through the two loops, over items in order
  and over the entries of a map in any order.
* **`hashInto_agree`** is the induction over a value, case by case the one of equality.
-/

namespace Classwright

/-! ## Hashes that agree -/

/-- Two results that are there and the same. -/
def HashAgree (x y : Except InstanceFault Int32) : Prop := ∃ n, x = .ok n ∧ y = .ok n

theorem HashAgree.ok (n : Int32) : HashAgree (.ok n) (.ok n) := ⟨n, rfl, rfl⟩

theorem HashAgree.bind {x y : Except InstanceFault Int32} {f g : Int32 → Except InstanceFault Int32}
    (h : HashAgree x y) (hfg : ∀ n, HashAgree (f n) (g n)) : HashAgree (x.bind f) (y.bind g) := by
  obtain ⟨n, rfl, rfl⟩ := h
  exact hfg n

/-- Two loops whose steps agree place by place agree. -/
theorem foldlM_agree {α β : Type} {f : Int32 → α → Except InstanceFault Int32}
    {g : Int32 → β → Except InstanceFault Int32} {xs : List α} {ys : List β}
    (h : List.Forall₂ (fun x y => ∀ acc, HashAgree (f acc x) (g acc y)) xs ys) (acc : Int32) :
    HashAgree (xs.foldlM f acc) (ys.foldlM g acc) := by
  induction h generalizing acc with
  | nil => exact HashAgree.ok acc
  | cons hxy _ ih =>
    rw [List.foldlM_cons, List.foldlM_cons]
    exact (hxy acc).bind ih

/-- Adds the hash of an entry to a sum. -/
def addHash {α : Type} (entry : α → Except InstanceFault Int32) (sum : Int32) (x : α) :
    Except InstanceFault Int32 :=
  (entry x).bind fun hash => .ok (sum + hash)

theorem addHash_agree {α β : Type} {f : α → Except InstanceFault Int32}
    {g : β → Except InstanceFault Int32} {x : α} {y : β} (h : HashAgree (f x) (g y)) (sum : Int32) :
    HashAgree (addHash f sum x) (addHash g sum y) :=
  h.bind fun hash => HashAgree.ok (sum + hash)

theorem addHash_eq_ok {α : Type} {entry : α → Except InstanceFault Int32} {sum n : Int32} {x : α} :
    addHash entry sum x = .ok n ↔ ∃ hash, entry x = .ok hash ∧ n = sum + hash := by
  unfold addHash
  cases entry x with
  | error e => exact ⟨nofun, nofun⟩
  | ok hash =>
    constructor
    · rintro ⟨⟩
      exact ⟨hash, rfl, rfl⟩
    · rintro ⟨_, ⟨⟩, rfl⟩
      rfl

theorem addHashes_cons_eq_ok {α : Type} {entry : α → Except InstanceFault Int32} {x : α}
    {l : List α} {sum n : Int32} :
    (x :: l).foldlM (addHash entry) sum = .ok n ↔
      ∃ hash, entry x = .ok hash ∧ l.foldlM (addHash entry) (sum + hash) = .ok n := by
  rw [List.foldlM_cons]
  cases h : addHash entry sum x with
  | error e =>
    refine ⟨nofun, fun ⟨hash, hx, _⟩ => ?_⟩
    rw [addHash_eq_ok.2 ⟨hash, hx, rfl⟩] at h
    cases h
  | ok m =>
    obtain ⟨hash, hx, rfl⟩ := addHash_eq_ok.1 h
    refine ⟨fun hl => ⟨hash, hx, hl⟩, ?_⟩
    rintro ⟨_, hx', hl⟩
    cases hx.symm.trans hx'
    exact hl

/-- **A sum that is there does not depend on the order of the entries.** Which fault there is does,
where there is more than one. -/
theorem addHashes_of_perm {α : Type} {entry : α → Except InstanceFault Int32} {l l' : List α}
    (hp : l.Perm l') {sum n : Int32} (h : l.foldlM (addHash entry) sum = .ok n) :
    l'.foldlM (addHash entry) sum = .ok n := by
  induction hp generalizing sum with
  | nil => exact h
  | cons x _ ih =>
    obtain ⟨hash, hx, hl⟩ := addHashes_cons_eq_ok.1 h
    exact addHashes_cons_eq_ok.2 ⟨hash, hx, ih hl⟩
  | swap x y l =>
    obtain ⟨hashY, hy, h⟩ := addHashes_cons_eq_ok.1 h
    obtain ⟨hashX, hx, h⟩ := addHashes_cons_eq_ok.1 h
    refine addHashes_cons_eq_ok.2 ⟨hashX, hx, addHashes_cons_eq_ok.2 ⟨hashY, hy, ?_⟩⟩
    rwa [Int32.add_assoc, Int32.add_comm hashX, ← Int32.add_assoc]
  | trans _ _ ih ih' => exact ih' (ih h)

namespace Registry

variable (leaf : LeafHash) (r : Registry)

/-! ## The equations of the hash -/

theorem hashInto_eq (v : Json) :
    r.hashInto leaf v = r.hashStep leaf v (v.items.map (r.hashInto leaf))
      (Fields.mapValues (r.hashInto leaf) v.fields) :=
  Json.walk_eq (r.hashStep leaf) v

/-- An object of a class counts as the hash of that class. -/
theorem hashInto_structural {v : Json} (hv : v.isNull = false) (name : String) (shape : Shape)
    (acc : Int32) :
    r.hashInto leaf v (.structural name) shape acc =
      (r.find name).bind fun c =>
        (hashProperties c fun key => r.hashInto leaf (v.part key)).bind fun hash =>
          .ok (foldHash acc hash) := by
  have hpart (key : String) : (Fields.get? (Fields.mapValues (r.hashInto leaf) v.fields) key).getD
      hashNull = r.hashInto leaf (v.part key) := Json.getD_get?_walk (r.hashStep leaf) v key
  rw [hashInto_eq]
  cases v with
  | null => cases hv
  | _ => simp only [hashStep, hpart]; rfl

/-- The items of a list count one after another. -/
theorem hashInto_sequence (xs : List Json) (inner : Comparison) (shape : Shape) (acc : Int32) :
    r.hashInto leaf (.list xs) (.sequence inner) shape acc =
      xs.foldlM (fun acc x => r.hashInto leaf x inner shape.element acc) acc := by
  rw [hashInto_eq]
  simp only [hashStep, Json.items, List.foldlM_map]

/-- The hash of an entry of a map starts from the hash of its key. -/
def entryHash (inner : Comparison) (shape : Shape) (f : String × Json) :
    Except InstanceFault Int32 :=
  r.hashInto leaf f.2 inner shape.element (leaf.text f.1)

/-- A map counts as the sum of its entries. -/
theorem hashInto_unordered (xs : List (String × Json)) (inner : Comparison) (shape : Shape)
    (acc : Int32) :
    r.hashInto leaf (.object xs) (.unordered inner) shape acc =
      (xs.foldlM (addHash (r.entryHash leaf inner shape)) 0).bind fun sum =>
        .ok (foldHash acc sum) := by
  rw [hashInto_eq]
  simp only [hashStep, Json.fields, Fields.mapValues, List.foldlM_map]
  rfl

/-- Everything else counts as a value. -/
theorem hashInto_of_not_opens {v : Json} (hv : v.isNull = false) {comparison : Comparison}
    (h : comparison.opens v v = false) (shape : Shape) (acc : Int32) :
    r.hashInto leaf v comparison shape acc = .ok (foldHash acc (v.hash leaf)) := by
  rw [hashInto_eq]
  cases v with
  | null => cases hv
  | _ =>
    cases comparison <;> first | rfl | cases h

/-! ## Equal values -/

variable {leaf r}

theorem hashNull_agree (comparison : Comparison) (shape : Shape) (acc : Int32) :
    HashAgree (hashNull comparison shape acc) (hashNull comparison shape acc) := by
  cases comparison <;> exact HashAgree.ok _

/-- Values that are equal without being looked into. -/
theorem hashInto_agree_of_order (hleaf : leaf.Lawful) {a b : Json} {comparison : Comparison}
    (ho : comparison.opens a b = false) (h : a.order b = .eq) (shape : Shape) (acc : Int32) :
    HashAgree (r.hashInto leaf a comparison shape acc) (r.hashInto leaf b comparison shape acc) := by
  have hk := Json.kindRank_eq_of_order h
  have hrank := comparison.rank_eq_of_kindRank hk
  have hbb : comparison.opens b b = false := (Comparison.opens_congr hrank b).symm.trans ho
  have haa : comparison.opens a a = false := by
    rw [Comparison.opens_congr hrank, Comparison.opens_comm, ho]
  cases ha : a.isNull with
  | true =>
    cases Json.eq_null_of_isNull ha
    cases Json.eq_null_of_isNull ((Json.isNull_eq_of_kindRank hk).symm.trans ha)
    exact hashNull_agree comparison shape acc
  | false =>
    have hb : b.isNull = false := (Json.isNull_eq_of_kindRank hk).symm.trans ha
    rw [hashInto_of_not_opens leaf r ha haa, hashInto_of_not_opens leaf r hb hbb,
      Json.hash_eq_of_order hleaf h]
    exact HashAgree.ok _

/-- Instances whose properties are equal, one by one. -/
theorem hashProperties_agree {c : ClassModel} {f g : String → HashFold}
    (h : ∀ p ∈ c.properties, ∀ acc, HashAgree (f p.jsonName p.evaluated p.shape acc)
      (g p.jsonName p.evaluated p.shape acc)) :
    HashAgree (hashProperties c f) (hashProperties c g) :=
  foldlM_agree (List.forall₂_same.2 h) hashSeed

/-- **Equal values count alike**, from whatever hash they start. -/
theorem hashInto_agree (hleaf : leaf.Lawful) {a b : Json} (ha : a.distinctKeys = true)
    {comparison : Comparison} {shape : Shape} (h : r.equalValues a comparison shape b = .ok true)
    (acc : Int32) :
    HashAgree (r.hashInto leaf a comparison shape acc) (r.hashInto leaf b comparison shape acc) := by
  induction a using Json.ind_parts generalizing b comparison shape acc with
  | step a items fields parts =>
    cases ho : comparison.opens a b with
    | false => exact hashInto_agree_of_order hleaf ho ((equalValues_true_of_not_opens r ho).1 h) _ _
    | true =>
      cases comparison with
      | value => cases ho
      | custom comparer => cases ho
      | structural name =>
        obtain ⟨hna, hnb⟩ := Comparison.not_null_of_opens ho
        obtain ⟨c, hc, hp⟩ := (equalValues_structural_true r hna hnb).1 h
        -- a missing part counts as `null`, and so does a part that is `null`
        rw [hashInto_structural leaf r hna, hashInto_structural leaf r hnb, hc]
        refine HashAgree.bind (hashProperties_agree fun p hp' => ?_) fun hash => HashAgree.ok _
        exact parts hna p.jsonName (Json.distinctKeys_part ha _) (hp p hp')
      | sequence inner =>
        obtain ⟨xs, ys, rfl, rfl⟩ := Comparison.lists_of_opens ho
        rw [hashInto_sequence, hashInto_sequence]
        refine foldlM_agree (.imp_of_mem ?_ ((equalValues_sequence_true r).1 h)) acc
        intro x hx y hxy
        exact items x hx (Json.distinctKeys_list.1 ha x hx) hxy
      | unordered inner =>
        obtain ⟨xs, ys, rfl, rfl⟩ := Comparison.objects_of_opens ho
        obtain ⟨hd, hxs⟩ := Json.distinctKeys_object.1 ha
        let add := addHash (r.entryHash leaf inner shape)
        -- the entries agree in the order of the keys, and the sums do not depend on the order
        have hsorted : HashAgree ((Fields.sorted xs).foldlM add 0)
            ((Fields.sorted ys).foldlM add 0) := by
          refine foldlM_agree (.imp_of_mem ?_ ((equalValues_unordered_true r hd).1 h)) 0
          rintro ⟨key, x⟩ hf ⟨_, y⟩ ⟨rfl, hxy⟩
          have hmem := (Fields.perm_sorted xs).mem_iff.1 hf
          exact addHash_agree (fields _ hmem (hxs _ hmem) hxy _)
        obtain ⟨sum, hx, hy⟩ := hsorted
        rw [hashInto_unordered, hashInto_unordered, addHashes_of_perm (Fields.perm_sorted xs) hx,
          addHashes_of_perm (Fields.perm_sorted ys) hy]
        exact HashAgree.ok _

/-! ## Equal instances -/

theorem equalValues_parts_of_equals {name : String} {c : ClassModel} (hc : r.find name = .ok c)
    {a b : Json} {shape : Shape} (h : r.equalValues a (.structural name) shape b = .ok true) :
    ∀ p ∈ c.properties,
      r.equalValues (a.part p.jsonName) p.evaluated p.shape (b.part p.jsonName) = .ok true := by
  cases ho : (Comparison.structural name).opens a b with
  | true =>
    obtain ⟨ha, hb⟩ := Comparison.not_null_of_opens ho
    obtain ⟨c', hc', hp⟩ := (equalValues_structural_true r ha hb).1 h
    cases hc.symm.trans hc'
    exact hp
  | false =>
    -- one of the two is `null`, so both are, and so are all their parts
    have hk := Json.kindRank_eq_of_order ((equalValues_true_of_not_opens r ho).1 h)
    have hab := Json.isNull_eq_of_kindRank hk
    have ha : a.isNull = true := by simpa [Comparison.opens, ← hab] using ho
    cases Json.eq_null_of_isNull ha
    cases Json.eq_null_of_isNull (hab.symm.trans ha)
    exact fun p _ => rfl

/-- Instances of a class that is there, equal by that class. -/
theorem hash_agree (hleaf : leaf.Lawful) {name : String} {c : ClassModel} (hc : r.find name = .ok c)
    {a b : Json} (ha : a.distinctKeys = true) {shape : Shape}
    (h : r.equalValues a (.structural name) shape b = .ok true) :
    HashAgree (r.hash leaf name a) (r.hash leaf name b) := by
  have hparts : HashAgree (hashProperties c fun key => r.hashInto leaf (a.part key))
      (hashProperties c fun key => r.hashInto leaf (b.part key)) :=
    hashProperties_agree fun p hp => hashInto_agree hleaf (Json.distinctKeys_part ha _)
      (equalValues_parts_of_equals hc h p hp)
  unfold hash
  rw [hc]
  exact hparts

/-- **Equal instances have one hash.** Values that are read repeat no key
(`Json.distinctKeys_collapse`). -/
theorem hash_eq_of_equals (hleaf : leaf.Lawful) {className : String} {a b : Json}
    (ha : a.distinctKeys = true) (h : r.equals className a b = .ok true) :
    ∃ n, r.hash leaf className a = .ok n ∧ r.hash leaf className b = .ok n := by
  rw [equals_eq] at h
  cases hc : r.find className with
  | error e =>
    rw [hc] at h
    cases h
  | ok c =>
    rw [hc] at h
    exact hash_agree hleaf hc ha h

theorem hash_eq_of_equals_trees :
    aTree.distinctKeys = true ∧ trees.equals "Tree" aTree sameTree = .ok true ∧
      ∃ n, trees.hash .sip "Tree" aTree = .ok n ∧ trees.hash .sip "Tree" sameTree = .ok n := by
  have hkeys : aTree.distinctKeys = true := by decide
  have hequal : trees.equals "Tree" aTree sameTree = .ok true := by decide
  exact ⟨hkeys, hequal, hash_eq_of_equals LeafHash.lawful_sip hkeys hequal⟩

end Registry

end Classwright
