import Classwright.Schema.Reader
import Classwright.Proofs.Model.Build

/-!
# What is read is well-formed

A reader gives what its parts give: `Reader.Gives` says what holds of every value that a reader can
give, and each combinator carries it from its parts to the whole. The loop over the fields of an
object has the usual rule: what holds of the first state and is kept by every entry holds of the
last one.

With it a schema that was read never has two properties of one name, at the root or in a definition.
-/

namespace Classwright

namespace Json

variable {α β σ κ : Type}

/-- What holds of all that a reader can give. -/
def Reader.Gives (read : Reader α) (P : α → Prop) : Prop := ∀ s v, read s = .ok v → P v.value

theorem Reader.Gives.map {read : Reader α} {f : α → β} {P : β → Prop}
    (h : read.Gives fun x => P (f x)) : (read.map f).Gives P := by
  intro s v hv
  rw [Reader.map] at hv
  cases hread : read s with
  | error fault => rw [hread] at hv; cases hv
  | ok x =>
    rw [hread] at hv
    cases hv
    exact h s x hread

/-- What holds of all that a reader can give holds of what it gives for a whole text. -/
theorem readDocument_gives {read : Reader α} {P : α → Prop} (h : read.Gives P) {text : String} {a : α}
    (hread : readDocument read text = .ok a) : P a := by
  unfold readDocument at hread
  cases htext : read text.toList with
  | error fault => rw [htext] at hread; cases hread
  | ok v =>
    rw [htext] at hread
    cases hread
    exact h _ v htext

/-- The loop over the fields of an object keeps what each entry keeps. -/
theorem fieldsFrom_invariant {I : σ → Prop} {path : Path}
    {entry : σ → String → Except Fault (Reader σ)}
    (hentry : ∀ state key read, I state → entry state key = .ok read → read.Gives I)
    {s₀ : List Char} {first : Bool} {state : σ} {s : List Char} {hs : s.length ≤ s₀.length}
    {v : Taken σ s₀} (hstate : I state) (h : fieldsFrom path entry first state s hs = .ok v) :
    I v.value := by
  fun_induction fieldsFrom path entry first state s hs with
  | case2 =>
    cases h
    exact hstate
  | case7 first state s hs r le hnext key hkey read hread after hafter w hw ih =>
    exact ih (hentry _ _ _ hstate hread _ _ hw) h
  | _ => cases h

theorem readObject_gives {P : α → Prop} {field : Option (String → Reader α)} {path : Path}
    (h : ∀ read key, field = some read → (read key).Gives P) :
    (readObject path field).Gives fun fields => ∀ f ∈ fields, P f.2 := by
  intro s v hv
  unfold readObject at hv
  split at hv
  · split at hv
    · cases hv
    · next read =>
      dsimp only at hv
      -- the fields read so far, the last one first
      have hentry (done : Fields α) (key : String) (reader : Reader (Fields α))
          (hdone : ∀ f ∈ done, P f.2)
          (hreader : Except.ok ((read key).map fun v => (key, v) :: done) =
            (Except.ok reader : Except Fault _)) : reader.Gives fun fields => ∀ f ∈ fields, P f.2 := by
        cases hreader
        refine Reader.Gives.map fun s x hx f hf => ?_
        rcases List.mem_cons.1 hf with rfl | hf
        · exact h read key rfl s x hx
        · exact hdone f hf
      cases hloop : fieldsFrom path _ true [] _ _ with
      | error fault => rw [hloop] at hv; cases hv
      | ok w =>
        rw [hloop] at hv
        cases hv
        have hw := fieldsFrom_invariant hentry (fun _ hf => absurd hf List.not_mem_nil) hloop
        exact fun f hf => hw f (List.mem_reverse.1 hf)
  · cases hv

theorem recordItems_invariant {I : σ → Prop} {assign : Assign κ σ}
    (hassign : ∀ field path draft, I draft → (assign field path draft).Gives I) {path : Path}
    {s₀ : List Char} {fields : Fields κ} {index : Nat} {draft : σ} {s : List Char}
    {hs : s.length ≤ s₀.length} {v : Taken σ s₀} (hdraft : I draft)
    (h : recordItems assign path fields index draft s hs = .ok v) : I v.value := by
  fun_induction recordItems assign path fields index draft s hs with
  | case2 | case4 =>
    cases h
    exact hdraft
  | case6 key field fields index draft s hs r le hnext w hw ih =>
    exact ih (hassign _ _ _ hdraft _ _ hw) h
  | _ => cases h

/-- A record keeps what every field keeps. -/
theorem readRecord_gives {I : σ → Prop} {type : RecordType κ} {default : σ} {path : Path}
    {assign : Option (Assign κ σ)} (hdefault : I default)
    (h : ∀ f, assign = some f → ∀ field path draft, I draft → (f field path draft).Gives I) :
    (readRecord type default path assign).Gives I := by
  intro s v hv
  unfold readRecord at hv
  split at hv
  · split at hv
    · cases hv
    · next f => exact recordItems_invariant (h f rfl) hdefault hv
  · split at hv
    · cases hv
    · next f =>
      have hentry (state : List String × σ) (key : String) (read : Reader (List String × σ))
          (hstate : I state.2) (hread : recordEntry type f path state key = .ok read) :
          read.Gives fun state => I state.2 := by
        unfold recordEntry at hread
        split at hread
        · split at hread
          · cases hread
          · cases hread
            exact Reader.Gives.map (h f rfl _ _ _ hstate)
        · split at hread
          · cases hread
          · cases hread
            exact Reader.Gives.map fun _ _ _ => hstate
      cases hloop : fieldsFrom path (recordEntry type f path) true ([], default) _ _ with
      | error fault => rw [hloop] at hv; cases hv
      | ok w =>
        rw [hloop] at hv
        cases hv
        exact fieldsFrom_invariant (I := fun state => I state.2) hentry hdefault hloop
  · cases hv

end Json

namespace Schema

open Json

theorem readNamed_gives {depth : Nat} (h : ∀ path, (read depth path).Gives DistinctNames)
    (path : Path) : (readNamed (depth + 1) path).Gives fun named =>
      (Fields.keys named).Nodup ∧ ∀ d ∈ named, d.2.DistinctNames := by
  unfold readNamed
  have hobject : (readObject path (some fun key => read depth (.key key :: path))).Gives
      fun named => ∀ d ∈ named, d.2.DistinctNames := by
    refine readObject_gives fun reader key hreader => ?_
    cases hreader
    exact h _
  refine Reader.Gives.map fun s v hv => ⟨Fields.nodup_keys_collapse _, fun d hd => ?_⟩
  exact hobject s v hv d (Fields.mem_of_mem_collapse hd)

theorem readNamed_zero_gives (path : Path) (P : List (String × Schema) → Prop) :
    (readNamed 0 path).Gives P := by
  intro s v hv
  unfold readNamed readObject at hv
  split at hv
  · cases hv
  · cases hv

theorem read_gives (depth : Nat) (path : Path) : (read depth path).Gives DistinctNames := by
  have hempty : DistinctNames {} := ⟨List.nodup_nil, fun _ hd => nomatch hd⟩
  induction depth using Nat.strongRecOn generalizing path with
  | ind depth ih =>
    cases depth with
    | zero =>
      unfold read
      exact readRecord_gives hempty fun _ hf => nomatch hf
    | succ depth =>
      have hnamed (path : Path) : (readNamed depth path).Gives fun named =>
          (Fields.keys named).Nodup ∧ ∀ d ∈ named, d.2.DistinctNames := by
        cases depth with
        | zero => exact readNamed_zero_gives path _
        | succ depth => exact readNamed_gives (fun path => ih depth (by omega) path) path
      unfold read
      refine readRecord_gives hempty fun f hf field path draft hdraft => ?_
      cases hf
      -- only two fields matter here, the others leave both as they are
      cases field with
      | properties => exact Reader.Gives.map fun s v hv => ⟨(hnamed _ s v hv).1, hdraft.2⟩
      | definitions =>
        exact Reader.Gives.map fun s v hv =>
          ⟨hdraft.1, fun d hd => ((hnamed _ s v hv).2 d hd).1⟩
      | _ => exact Reader.Gives.map fun _ _ _ => hdraft

/-- **A schema that was read repeats no name of a property.** -/
theorem distinctNames_ofText {text : String} {s : Schema} (h : ofText text = .ok s) :
    s.DistinctNames :=
  readDocument_gives (read_gives _ _) h

end Schema

end Classwright
