import Classwright.Command.Run
import Classwright.Proofs.Disk.Log

/-!
# Steps of a run on a file tree

How the steps of a run end when the disk is a file tree: with a result or a report, what was said, and
the tree they leave. One rule for each way in which steps are put together is enough for the runs below.

* **`ends_bind_ok`**, **`of_ends_bind`** — steps one after another.
* **`ReadsFrom`** — steps that leave the tree alone, and that come to the same wherever the files they
  read have the same texts. Loading the settings and the hints is of this kind.
* **`loadInputs_again`** — what a run has read is read again from every tree that has the same inputs.
-/

namespace Classwright.Run

open FileTree

variable {α β : Type}

/-- How steps end on a file tree. -/
def ends (x : RunT (StateM FileTree) α) (c : Console) (t : FileTree) :
    (Except Report α × Console) × FileTree :=
  (x.run.run c).run t

section Rules

variable {x : RunT (StateM FileTree) α} {f : α → RunT (StateM FileTree) β} {c c' : Console}
  {t t' : FileTree}

theorem ends_bind_ok {a : α} (h : ends x c t = ((.ok a, c'), t')) :
    ends (x >>= f) c t = ends (f a) c' t' := by
  have hbind : ends (x >>= f) c t =
      ExceptT.bindCont f (ends x c t).1.1 (ends x c t).1.2 (ends x c t).2 := rfl
  rw [hbind, h]
  rfl

theorem ends_bind_error {e : Report} (h : ends x c t = ((.error e, c'), t')) :
    ends (x >>= f) c t = ((.error e, c'), t') := by
  have hbind : ends (x >>= f) c t =
      ExceptT.bindCont f (ends x c t).1.1 (ends x c t).1.2 (ends x c t).2 := rfl
  rw [hbind, h]
  rfl

theorem of_ends_bind {b : β} (h : ends (x >>= f) c t = ((.ok b, c'), t')) :
    ∃ a c₁ t₁, ends x c t = ((.ok a, c₁), t₁) ∧ ends (f a) c₁ t₁ = ((.ok b, c'), t') := by
  rcases hx : ends x c t with ⟨⟨r, c₁⟩, t₁⟩
  cases r with
  | ok a => exact ⟨a, c₁, t₁, rfl, (ends_bind_ok hx).symm.trans h⟩
  | error e =>
    rw [ends_bind_error hx] at h
    cases h

theorem ends_pure (a : α) (c : Console) (t : FileTree) : ends (pure a) c t = ((.ok a, c), t) := rfl

theorem ends_onDisk (op : StateM FileTree α) (c : Console) (t : FileTree) :
    ends (onDisk op) c t = ((.ok (op t).1, c), (op t).2) := rfl

theorem ends_printError (text : String) (c : Console) (t : FileTree) :
    ends (printError text) c t = ((.ok (), { c with err := c.err ++ text }), t) := rfl

theorem ends_warn (warnings : List Warning) (c : Console) (t : FileTree) :
    ends (warn warnings) c t = ((.ok (), { c with warnings := c.warnings ++ warnings }), t) := rfl

theorem ends_within_ok {ε : Type} (doing : String) (message : ε → String) (a : α) (c : Console)
    (t : FileTree) : ends (within doing message (.ok a)) c t = ((.ok a, c), t) := rfl

/-- Nothing is given where a result was a fault. -/
theorem of_ends_within {ε : Type} {doing : String} {message : ε → String} {r : Except ε α} {a : α}
    (h : ends (within doing message r) c t = ((.ok a, c'), t')) : r = .ok a ∧ c' = c ∧ t' = t := by
  cases r with
  | ok b =>
    cases h
    exact ⟨rfl, rfl, rfl⟩
  | error e => cases h

end Rules

/-! ## Steps that read -/

/-- Whether every file of some paths that can be read in one tree has the same text in another one. -/
def Spares (paths : String → Prop) (t t' : FileTree) : Prop :=
  ∀ path, paths path → ∀ text, t.read path = .ok text → t'.read path = .ok text

/-- Steps that leave the tree alone and depend on the texts at some paths only. What they say is put at
the end of what was said before. -/
def ReadsFrom (paths : String → Prop) (x : RunT (StateM FileTree) α) : Prop :=
  ∀ t, ∃ (r : Except Report α) (say : Console → Console), (∀ c, ends x c t = ((r, say c), t)) ∧
    ∀ a, r = .ok a → ∀ t', Spares paths t t' → ∀ c, ends x c t' = ((r, say c), t')

namespace ReadsFrom

variable {paths : String → Prop}

theorem pure (a : α) : ReadsFrom paths (Pure.pure a) :=
  fun _ => ⟨.ok a, id, fun _ => rfl, fun _ _ _ _ _ => rfl⟩

theorem throw (e : Report) : ReadsFrom paths (MonadExcept.throw e : RunT (StateM FileTree) α) :=
  fun _ => ⟨.error e, id, fun _ => rfl, fun _ _ _ _ _ => rfl⟩

theorem warn (warnings : List Warning) : ReadsFrom paths (Run.warn warnings) :=
  fun _ => ⟨.ok (), fun c => { c with warnings := c.warnings ++ warnings }, fun _ => rfl,
    fun _ _ _ _ _ => rfl⟩

theorem within {ε : Type} (doing : String) (message : ε → String) (r : Except ε α) :
    ReadsFrom paths (Run.within doing message r) := by
  cases r with
  | ok a => exact pure a
  | error e => exact throw _

theorem bind {x : RunT (StateM FileTree) α} {f : α → RunT (StateM FileTree) β}
    (hx : ReadsFrom paths x) (hf : ∀ a, ReadsFrom paths (f a)) : ReadsFrom paths (x >>= f) := by
  intro t
  obtain ⟨r, say, hends, hsame⟩ := hx t
  cases r with
  | error e =>
    refine ⟨.error e, say, fun c => ends_bind_error (hends c), ?_⟩
    intro a ha
    cases ha
  | ok a =>
    -- the first steps left the tree alone, so the others start from it as well
    obtain ⟨r', say', hends', hsame'⟩ := hf a t
    refine ⟨r', say' ∘ say, fun c => (ends_bind_ok (hends c)).trans (hends' (say c)), ?_⟩
    intro b hb t' hspares c
    rw [ends_bind_ok (hsame a rfl t' hspares c)]
    exact hsame' b hb t' hspares (say c)

theorem readFile {path : String} (h : paths path) : ReadsFrom paths (Run.readFile disk path) := by
  intro t
  have hends (c : Console) (t : FileTree) : ends (Run.readFile disk path) c t =
      ends (Run.within ("failed to read " ++ path) DiskFault.message (t.read path)) c t := rfl
  cases hread : t.read path with
  | ok text =>
    refine ⟨.ok text, id, fun c => by rw [hends, hread]; rfl, fun _ _ t' hspares c => ?_⟩
    rw [hends, hspares path h text hread]
    rfl
  | error fault =>
    refine ⟨_, id, fun c => by rw [hends, hread]; rfl, ?_⟩
    intro a ha
    cases ha

theorem mapM {γ : Type} {f : γ → RunT (StateM FileTree) α} {l : List γ}
    (h : ∀ a ∈ l, ReadsFrom paths (f a)) : ReadsFrom paths (l.mapM f) := by
  induction l with
  | nil => exact pure []
  | cons a l ih =>
    rw [List.mapM_cons]
    refine (h a List.mem_cons_self).bind fun b => ?_
    exact (ih fun a' ha' => h a' (List.mem_cons_of_mem _ ha')).bind fun _ => pure _

/-- Where something was read once, it is read again from every tree with the same texts. -/
theorem again {x : RunT (StateM FileTree) α} (hx : ReadsFrom paths x) {t t₁ : FileTree} {a : α}
    {c c₁ : Console} (h : ends x c t = ((.ok a, c₁), t₁)) : t₁ = t ∧ ∃ say : Console → Console,
      ∀ t', Spares paths t t' → ∀ c, ends x c t' = ((.ok a, say c), t') := by
  obtain ⟨r, say, hends, hsame⟩ := hx t
  rw [hends c] at h
  cases h
  exact ⟨rfl, say, hsame a rfl⟩

end ReadsFrom

theorem readsFrom_loadSettings (inputs : Inputs) :
    ReadsFrom (· ∈ inputs.settings) (loadSettings disk inputs) := by
  unfold loadSettings
  cases inputs.settings with
  | none => exact (ReadsFrom.pure _).bind fun _ => ReadsFrom.pure _
  | some path =>
    have hread : ReadsFrom (· ∈ some path) (readFile disk path) := ReadsFrom.readFile rfl
    exact hread.bind fun _ => (ReadsFrom.within _ _ _).bind fun _ => ReadsFrom.pure _

theorem readsFrom_loadHints (inputs : Inputs) :
    ReadsFrom (· ∈ inputs.hints) (loadHints disk inputs) := by
  unfold loadHints
  cases inputs.hints with
  | none => exact ReadsFrom.pure _
  | some path =>
    have hread : ReadsFrom (· ∈ some path) (readFile disk path) := ReadsFrom.readFile rfl
    refine hread.bind fun _ => (ReadsFrom.within _ _ _).bind fun report => ?_
    split
    · exact (ReadsFrom.warn _).bind fun _ => ReadsFrom.pure _
    · exact ReadsFrom.within _ _ _

/-- The schemas at the given paths. -/
def readSchemas (paths : List String) : RunT (StateM FileTree) (List LoadedSchema) :=
  paths.mapM fun path => do
    let source ← readFile disk path
    let schema ← within ("in " ++ path) (fun f => "invalid schema document: " ++ f.message)
      (Schema.ofText source)
    return ⟨path, schema⟩

theorem loadSchemas_eq (inputs : Inputs) :
    loadSchemas disk inputs = inputs.schemas.flatMapM (schemaPaths disk) >>= readSchemas := rfl

theorem readsFrom_readSchemas (paths : List String) : ReadsFrom (· ∈ paths) (readSchemas paths) :=
  ReadsFrom.mapM fun _ hpath => (ReadsFrom.readFile hpath).bind fun _ =>
    (ReadsFrom.within _ _ _).bind fun _ => ReadsFrom.pure _

/-! ## Inputs -/

/-- All that a run has read before it does anything. -/
structure Loaded where
  settings : Settings
  hints : HintTable
  schemas : List LoadedSchema

/-- Reads the inputs of a run. -/
def loadInputs (inputs : Inputs) : RunT (StateM FileTree) Loaded := do
  let settings ← loadSettings disk inputs
  let hints ← loadHints disk inputs
  let schemas ← loadSchemas disk inputs
  return ⟨settings, hints, schemas⟩

/-- Whether the schema arguments of a run stand for the given paths. -/
def Finds (t : FileTree) (inputs : Inputs) (paths : List String) : Prop :=
  ∀ c, ends (inputs.schemas.flatMapM (schemaPaths disk)) c t = ((.ok paths, c), t)

/-- An argument that is no pattern stands for itself. -/
theorem ends_schemaPaths {path : String} (h : Glob.isPattern path = false) (c : Console) (t : FileTree) :
    ends (schemaPaths disk path) c t = ((.ok [path], c), t) := by
  unfold schemaPaths
  rw [if_neg (by simp [h])]
  rfl

theorem finds_of_plain (t : FileTree) {inputs : Inputs}
    (h : ∀ path ∈ inputs.schemas, Glob.isPattern path = false) : Finds t inputs inputs.schemas := by
  intro c
  generalize inputs.schemas = paths at h ⊢
  induction paths with
  | nil => rfl
  | cons path paths ih =>
    rw [List.flatMapM_cons, ends_bind_ok (ends_schemaPaths (h path List.mem_cons_self) c t),
      ends_bind_ok (ih fun p hp => h p (List.mem_cons_of_mem _ hp)), ends_pure, List.singleton_append]

/-- The files that a run reads, where its schema arguments stand for the given paths. -/
def Inputs.files (inputs : Inputs) (paths : List String) : List String :=
  inputs.settings.toList ++ inputs.hints.toList ++ paths

theorem loadInputs_again {inputs : Inputs} {paths : List String} {t t₁ : FileTree} {l : Loaded}
    {c c₁ : Console} (hbefore : Finds t inputs paths)
    (h : ends (loadInputs inputs) c t = ((.ok l, c₁), t₁)) :
    t₁ = t ∧ ∀ {t'}, Finds t' inputs paths → Spares (· ∈ Inputs.files inputs paths) t t' →
      ∃ say : Console → Console, ∀ c, ends (loadInputs inputs) c t' = ((.ok l, say c), t') := by
  unfold loadInputs at h
  obtain ⟨settings, c₂, t₂, hsettings, hrest⟩ := of_ends_bind h
  obtain ⟨rfl, say₂, hsettings'⟩ := (readsFrom_loadSettings inputs).again hsettings
  obtain ⟨hints, c₃, t₃, hhints, hrest'⟩ := of_ends_bind hrest
  obtain ⟨rfl, say₃, hhints'⟩ := (readsFrom_loadHints inputs).again hhints
  obtain ⟨schemas, c₄, t₄, hschemas, hlast⟩ := of_ends_bind hrest'
  rw [loadSchemas_eq, ends_bind_ok (hbefore c₃)] at hschemas
  obtain ⟨rfl, say₄, hschemas'⟩ := (readsFrom_readSchemas paths).again hschemas
  rw [ends_pure] at hlast
  cases hlast
  refine ⟨rfl, fun {t'} hafter hspares => ⟨say₄ ∘ say₃ ∘ say₂, fun c => ?_⟩⟩
  -- the same three steps in the other tree, where patterns find the same paths
  unfold loadInputs
  rw [ends_bind_ok (hsettings' t' (fun path hpath => hspares path (by simp_all [Inputs.files])) c),
    ends_bind_ok (hhints' t' (fun path hpath => hspares path (by simp_all [Inputs.files])) _),
    loadSchemas_eq, bind_assoc, ends_bind_ok (hafter _),
    ends_bind_ok (hschemas' t' (fun path hpath => hspares path (by simp_all [Inputs.files])) _)]
  rfl

end Classwright.Run
