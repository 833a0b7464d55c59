import Mathlib.Data.List.Forall2
import Classwright.Proofs.Command.Steps

/-!
# Checking what was generated

A run that writes files is followed by one that compares them, with the same inputs. The second run
knows the same files, by path and by text, and finds at each path what was written to its place last.
So it finds a file out of date exactly if the first run itself wrote another text over it, and that
happens where two of its files share a place: schemas in files of one stem share a directory.

* **`wrote_generateAll`** — what a writing run makes of the disk, as a log with one entry for each file.
* **`ends_checkAll`** — a comparing run counts the files that do not have their text.
* **`drift_of_placed`** — those are the files whose text was replaced.
* **`spares_of_placed`** — what lies at none of the places reads as before, inputs among it.
* **`check_after_generate`** — the two runs one after another.
-/

namespace Classwright

open FileTree

/-! ## Replaced texts -/

/-- The number of entries whose text is not the last one at their place. -/
def FileTree.Log.replaced (log : Log) : Nat := log.countP fun e => log.last? e.1 ≠ some e.2

/-- Nothing is replaced if the texts for one place are all the same. -/
theorem FileTree.Log.replaced_eq_zero_iff (log : Log) :
    log.replaced = 0 ↔ ∀ e ∈ log, ∀ f ∈ log, e.1 = f.1 → e.2 = f.2 := by
  rw [replaced, List.countP_eq_zero]
  constructor
  · intro h e he f hf hplace
    have hlast : log.last? e.1 = some e.2 := by simpa using h e he
    have hlast' : log.last? f.1 = some f.2 := by simpa using h f hf
    rw [hplace, hlast'] at hlast
    exact (Option.some.inj hlast).symm
  · intro h e he
    obtain ⟨text, hlast⟩ := Log.exists_last? (List.mem_map_of_mem he)
    have heq : e.2 = text := h e he _ (Log.mem_of_last? hlast) rfl
    simp [hlast, heq]

namespace Run

/-! ## The files of a run -/

/-- The paths and texts of the files for one schema. -/
def filesFor (settings : Settings) (hints : HintTable) (out : String) (several : Bool)
    (loaded : LoadedSchema) : Except (List ModelFault) (Fields String) := do
  let units ← generate loaded.schema hints settings
  return (renderAll settings units).map fun file =>
    (Path.join (directoryFor out several loaded.path) file.fileName, file.text)

/-- The files for several schemas, in the order in which they are written. -/
def filesForAll (settings : Settings) (hints : HintTable) (out : String) (several : Bool) :
    List LoadedSchema → Except (List ModelFault) (Fields String)
  | [] => .ok []
  | loaded :: rest => do
    let files ← filesFor settings hints out several loaded
    let others ← filesForAll settings hints out several rest
    return files ++ others

/-- The files for all that was loaded. -/
def Loaded.files (l : Loaded) (out : String) : Except (List ModelFault) (Fields String) :=
  filesForAll l.settings l.hints out (1 < l.schemas.length) l.schemas

/-! ## Writing -/

/-- Whether the paths of files lead to the places of a log that has their texts. -/
def Placed (t : FileTree) (files : Fields String) (log : Log) : Prop :=
  List.Forall₂ (fun file e => resolve t.look file.1 = .ok e.1 ∧ Path.endsInSlash file.1 = false ∧
    e.2 = file.2) files log

theorem Placed.mono {t t' : FileTree} {files : Fields String} {log log' : Log}
    (h : Placed t files log) (hwrote : Wrote t log' t') : Placed t' files log :=
  List.Forall₂.imp (fun _ _ h => ⟨hwrote.resolve h.1, h.2⟩) h

variable {α β : Type}

/-- Steps that write some files, if they come to an end. -/
def Writes (x : RunT (StateM FileTree) α) (files : Fields String) : Prop :=
  ∀ c t a c' t', t.isDirectory = true → ends x c t = ((.ok a, c'), t') →
    ∃ log, Wrote t log t' ∧ Placed t' files log

namespace Writes

theorem of_reading {x : RunT (StateM FileTree) α} (h : ∀ c t, (ends x c t).2 = t) : Writes x [] := by
  intro c t a c' t' _ hends
  have ht := h c t
  rw [hends] at ht
  cases ht
  exact ⟨[], Wrote.refl _, List.Forall₂.nil⟩

theorem bind {x : RunT (StateM FileTree) α} {f : α → RunT (StateM FileTree) β}
    {files others : Fields String} (hx : Writes x files) (hf : ∀ a, Writes (f a) others) :
    Writes (x >>= f) (files ++ others) := by
  intro c t b c' t' hroot hends
  obtain ⟨a, c₁, t₁, hfirst, hsecond⟩ := of_ends_bind hends
  obtain ⟨log, hwrote, hplaced⟩ := hx c t a c₁ t₁ hroot hfirst
  obtain ⟨log', hwrote', hplaced'⟩ := hf a c₁ t₁ b c' t' (hwrote.isDirectory hroot) hsecond
  exact ⟨log ++ log', hwrote.append hwrote', List.rel_append (hplaced.mono hwrote') hplaced'⟩

theorem within {ε : Type} (doing : String) (message : ε → String) (r : Except ε α) :
    Writes (Run.within doing message r) [] := by
  apply of_reading
  intro c t
  cases r with
  | ok a => rfl
  | error e => rfl

/-- One file. -/
theorem write (path text : String) :
    Writes (onDisk (disk.write path text) >>= fun r =>
      Run.within ("failed to write " ++ path) DiskFault.message r) [(path, text)] := by
  intro c t a c' t' hroot hends
  rw [ends_bind_ok (ends_onDisk _ c t)] at hends
  obtain ⟨hok, -, rfl⟩ := of_ends_within hends
  unfold disk change at hok ⊢
  dsimp only at hok ⊢
  cases hwrite : t.write path text with
  | error fault =>
    rw [hwrite] at hok
    cases hok
  | ok t₁ =>
    obtain ⟨p, hresolve, hslash, hwrote⟩ := wrote_write hroot hwrite
    refine ⟨[(p, text)], hwrote, List.Forall₂.cons ⟨hwrote.resolve hresolve, hslash, rfl⟩ List.Forall₂.nil⟩

theorem createDirectories (directory : String) :
    Writes (onDisk (disk.createDirectories directory)) [] := by
  intro c t a c' t' hroot hends
  rw [ends_onDisk] at hends
  cases hends
  exact ⟨[], Builds.createDirectories directory t hroot, List.Forall₂.nil⟩

theorem writeFiles (directory : String) (files : List RenderedFile) :
    Writes (Run.writeFiles disk directory files)
      (files.map fun file => (Path.join directory file.fileName, file.text)) := by
  unfold Run.writeFiles
  refine (createDirectories directory).bind fun r => (within _ _ r).bind fun _ => ?_
  induction files with
  | nil => exact of_reading fun _ _ => rfl
  | cons file files ih => exact (write _ file.text).bind fun _ => ih

end Writes

/-- What a run for one schema leaves behind. -/
theorem wrote_generateOne {colored several : Bool} {inputs : Inputs} {out : String} {settings : Settings}
    {hints : HintTable} {loaded : LoadedSchema} {c c' : Console} {t t' : FileTree} {n : Nat}
    (hroot : t.isDirectory = true)
    (h : ends (generateOne disk colored { inputs, out := some out } settings hints several loaded) c t =
      ((.ok n, c'), t')) :
    ∃ files log, filesFor settings hints out several loaded = .ok files ∧ Wrote t log t' ∧
      Placed t' files log := by
  unfold generateOne at h
  obtain ⟨units, c₁, t₁, hunits, hrest⟩ := of_ends_bind h
  obtain ⟨hgenerate, rfl, rfl⟩ := of_ends_within hunits
  rw [ends_bind_ok (ends_warn _ _ _)] at hrest
  obtain ⟨_, c₂, t₂, hwrite, hlast⟩ := of_ends_bind hrest
  cases hlast
  obtain ⟨log, hwrote, hplaced⟩ := Writes.writeFiles _ _ _ _ _ _ _ hroot hwrite
  refine ⟨_, log, ?_, hwrote, hplaced⟩
  rw [filesFor, hgenerate]
  rfl

/-- Generates from schemas one by one, and adds up the files that are out of date. -/
def generateAll (colored : Bool) (request : GenerateRequest) (settings : Settings) (hints : HintTable)
    (several : Bool) (schemas : List LoadedSchema) (drifted : Nat) : RunT (StateM FileTree) Nat :=
  schemas.foldlM (fun drifted loaded => do
    let more ← generateOne disk colored request settings hints several loaded
    return drifted + more) drifted

theorem generateAll_cons (colored : Bool) (request : GenerateRequest) (settings : Settings)
    (hints : HintTable) (several : Bool) (loaded : LoadedSchema) (rest : List LoadedSchema)
    (drifted : Nat) :
    generateAll colored request settings hints several (loaded :: rest) drifted =
      generateOne disk colored request settings hints several loaded >>= fun more =>
        generateAll colored request settings hints several rest (drifted + more) := by
  simp [generateAll]

/-- **What a writing run leaves behind.** By induction on the schemas; the log of the first stays in
force under the log of the others. -/
theorem wrote_generateAll {colored several : Bool} {inputs : Inputs} {out : String} {settings : Settings}
    {hints : HintTable} {schemas : List LoadedSchema} {c c' : Console} {t t' : FileTree} {drifted n : Nat}
    (hroot : t.isDirectory = true)
    (h : ends (generateAll colored { inputs, out := some out } settings hints several schemas drifted) c t
      = ((.ok n, c'), t')) :
    ∃ files log, filesForAll settings hints out several schemas = .ok files ∧ Wrote t log t' ∧
      Placed t' files log := by
  induction schemas generalizing c t drifted with
  | nil =>
    cases h
    exact ⟨[], [], rfl, Wrote.refl _, List.Forall₂.nil⟩
  | cons loaded rest ih =>
    rw [generateAll_cons] at h
    obtain ⟨more, c₁, t₁, hone, hrest⟩ := of_ends_bind h
    obtain ⟨files, log, hfiles, hwrote, hplaced⟩ := wrote_generateOne hroot hone
    obtain ⟨others, log', hothers, hwrote', hplaced'⟩ := ih (hwrote.isDirectory hroot) hrest
    -- paths of the first files still lead to their places in the last tree
    refine ⟨files ++ others, log ++ log', ?_, hwrote.append hwrote',
      List.rel_append (hplaced.mono hwrote') hplaced'⟩
    rw [filesForAll, hfiles, hothers]
    rfl

/-! ## Comparing -/

/-- The number of files that do not have their text. -/
def drift (t : FileTree) (files : Fields String) : Nat :=
  files.countP fun file => (t.read file.1).toOption ≠ some file.2

/-- Whether there is a text to compare with for every file. -/
def Readable (t : FileTree) (files : Fields String) : Prop :=
  ∀ file ∈ files, ∃ text, t.read file.1 = .ok text

theorem ends_checkFiles {colored : Bool} {directory : String} {t : FileTree} {files : List RenderedFile}
    (h : Readable t (files.map fun file => (Path.join directory file.fileName, file.text)))
    (c : Console) :
    ∃ c', ends (checkFiles disk colored directory files) c t = ((.ok (drift t
      (files.map fun file => (Path.join directory file.fileName, file.text))), c'), t) := by
  induction files generalizing c with
  | nil => exact ⟨c, rfl⟩
  | cons file files ih =>
    obtain ⟨text, hread⟩ := h _ List.mem_cons_self
    have hstatus : ends (fileStatus disk (Path.join directory file.fileName) file.text) c t =
        ((.ok (if text = file.text then .upToDate else .changed), c), t) := by
      unfold fileStatus
      rw [ends_bind_ok (ends_onDisk _ c t)]
      dsimp only [disk]
      rw [hread]
      rfl
    unfold checkFiles
    rw [ends_bind_ok hstatus, ends_bind_ok (ends_printError _ _ _)]
    obtain ⟨c', hrest⟩ := ih (fun f hf => h f (List.mem_cons_of_mem _ hf)) _
    refine ⟨c', ?_⟩
    rw [ends_bind_ok hrest, ends_pure, drift, drift, List.map_cons, List.countP_cons, hread]
    by_cases heq : text = file.text <;> simp [heq, Except.toOption]

theorem ends_checkOne {colored several : Bool} {inputs : Inputs} {out : String} {settings : Settings}
    {hints : HintTable} {loaded : LoadedSchema} {files : Fields String} {t : FileTree}
    (hfiles : filesFor settings hints out several loaded = .ok files) (h : Readable t files)
    (c : Console) :
    ∃ c', ends (generateOne disk colored { inputs, out := some out, check := true } settings hints
      several loaded) c t = ((.ok (drift t files), c'), t) := by
  unfold filesFor at hfiles
  cases hgenerate : generate loaded.schema hints settings with
  | error fault =>
    rw [hgenerate] at hfiles
    cases hfiles
  | ok units =>
    rw [hgenerate] at hfiles
    cases hfiles
    unfold generateOne
    rw [hgenerate, ends_bind_ok (ends_within_ok _ _ units c t), ends_bind_ok (ends_warn _ _ _)]
    exact ends_checkFiles h _

theorem ends_checkAll {colored several : Bool} {inputs : Inputs} {out : String} {settings : Settings}
    {hints : HintTable} {schemas : List LoadedSchema} {files : Fields String} {t : FileTree}
    (hfiles : filesForAll settings hints out several schemas = .ok files) (h : Readable t files)
    (c : Console) (drifted : Nat) :
    ∃ c', ends (generateAll colored { inputs, out := some out, check := true } settings hints several
      schemas drifted) c t = ((.ok (drifted + drift t files), c'), t) := by
  induction schemas generalizing c drifted files with
  | nil =>
    cases hfiles
    exact ⟨c, rfl⟩
  | cons loaded rest ih =>
    unfold filesForAll at hfiles
    cases hone : filesFor settings hints out several loaded with
    | error fault =>
      rw [hone] at hfiles
      cases hfiles
    | ok first =>
      cases hothers : filesForAll settings hints out several rest with
      | error fault =>
        rw [hone, hothers] at hfiles
        cases hfiles
      | ok others =>
        rw [hone, hothers] at hfiles
        cases hfiles
        rw [generateAll_cons]
        obtain ⟨c₁, hfirst⟩ := ends_checkOne hone (fun f hf => h f (List.mem_append_left _ hf)) c
        rw [ends_bind_ok hfirst]
        obtain ⟨c₂, hrest⟩ := ih hothers (fun f hf => h f (List.mem_append_right _ hf)) c₁
          (drifted + drift t first)
        refine ⟨c₂, ?_⟩
        rw [hrest, drift, drift, drift, List.countP_append, Nat.add_assoc]

/-! ## One run after another -/

/-- Reading a written file gives the text that was written to its place last. -/
theorem read_of_placed {t t' : FileTree} {log : Log} (hwrote : Wrote t log t') {path : String} {p : Place}
    (hp : p ∈ log.map Prod.fst) (hresolve : resolve t'.look path = .ok p)
    (hslash : Path.endsInSlash path = false) :
    ∃ text, log.last? p = some text ∧ t'.read path = .ok text := by
  obtain ⟨text, hlast⟩ := Log.exists_last? hp
  exact ⟨text, hlast, read_eq_ok_iff.2 ⟨p, hresolve, (hwrote.written p text hlast).1, hslash⟩⟩

/-- Written files can be compared, and those that are out of date are those that were written over. The
induction takes files off the front; what was written last is asked of the whole log. -/
theorem drift_of_placed {t t' : FileTree} {files : Fields String} {log part : Log}
    (hwrote : Wrote t log t') (h : Placed t' files part) (hsub : part ⊆ log) :
    Readable t' files ∧ drift t' files = part.countP fun e => log.last? e.1 ≠ some e.2 := by
  induction h with
  | nil =>
    refine ⟨?_, rfl⟩
    intro file hfile
    cases hfile
  | @cons file e files part hfile _ ih =>
    obtain ⟨hresolve, hslash, htext⟩ := hfile
    obtain ⟨text, hlast, hread⟩ :=
      read_of_placed hwrote (List.mem_map_of_mem (hsub List.mem_cons_self)) hresolve hslash
    obtain ⟨hreadable, hdrift⟩ := ih fun e he => hsub (List.mem_cons_of_mem _ he)
    constructor
    · intro f hf
      rcases List.mem_cons.1 hf with rfl | hf
      · exact ⟨text, hread⟩
      · exact hreadable f hf
    · rw [drift, List.countP_cons, List.countP_cons, hread, hlast, htext, ← hdrift]
      rfl

/-- The place that a path leads to. -/
def placeOf (t : FileTree) (path : String) : Except DiskFault Place := (t.locate path).map Target.place

/-- The log of files that were written one after another, by where their paths lead. -/
def landing (t : FileTree) (files : Fields String) : Log :=
  files.filterMap fun file => (placeOf t file.1).toOption.map fun p => (p, file.2)

theorem placeOf_of_resolve {t : FileTree} {path : String} {p : Place} (h : resolve t.look path = .ok p) :
    placeOf t path = .ok p := by
  obtain ⟨found, hlocate, -⟩ := locate_of_resolve h
  rw [placeOf, hlocate]
  rfl

theorem landing_of_placed {t : FileTree} {files : Fields String} {log : Log} (h : Placed t files log) :
    landing t files = log := by
  induction h with
  | nil => rfl
  | @cons file e files log hfile _ ih =>
    obtain ⟨hresolve, -, htext⟩ := hfile
    rw [landing, List.filterMap_cons, placeOf_of_resolve hresolve]
    rw [landing] at ih
    rw [ih, ← htext]
    rfl

theorem mem_landing_iff {t : FileTree} {files : Fields String} {e : Place × String} :
    e ∈ landing t files ↔ ∃ f ∈ files, placeOf t f.1 = .ok e.1 ∧ f.2 = e.2 := by
  rw [landing, List.mem_filterMap]
  refine exists_congr fun f => and_congr_right fun _ => ?_
  cases placeOf t f.1 with
  | error fault => simp [Except.toOption]
  | ok p => simp [Except.toOption, Prod.ext_iff]

/-- **What lies at no written place reads as before.** -/
theorem spares_of_placed {t t' : FileTree} {files : Fields String} {log : Log} {paths : String → Prop}
    (hwrote : Wrote t log t') (hplaced : Placed t' files log)
    (hapart : ∀ path, paths path → ∀ f ∈ files, placeOf t' f.1 ≠ placeOf t' path) :
    Spares paths t t' := by
  intro path hpath text hread
  refine hwrote.read hread fun p hresolve hp => ?_
  obtain ⟨e, he, rfl⟩ := List.mem_map.1 hp
  rw [← landing_of_placed hplaced] at he
  obtain ⟨f, hf, hplace, -⟩ := mem_landing_iff.1 he
  exact hapart path hpath f hf (hplace.trans (placeOf_of_resolve hresolve).symm)

/-- Nothing is replaced if files for one place have the same text. -/
theorem replaced_landing_eq_zero_iff {t : FileTree} {files : Fields String} (h : Readable t files) :
    (landing t files).replaced = 0 ↔
      ∀ f ∈ files, ∀ g ∈ files, placeOf t f.1 = placeOf t g.1 → f.2 = g.2 := by
  rw [Log.replaced_eq_zero_iff]
  constructor
  · intro hlog f hf g hg hplace
    obtain ⟨text, hread⟩ := h f hf
    obtain ⟨p, hresolve, -, -⟩ := read_eq_ok_iff.1 hread
    have hp := placeOf_of_resolve hresolve
    exact hlog (p, f.2) (mem_landing_iff.2 ⟨f, hf, hp, rfl⟩) (p, g.2)
      (mem_landing_iff.2 ⟨g, hg, hplace ▸ hp, rfl⟩) rfl
  · intro hfiles e he e' he' hplace
    obtain ⟨f, hf, hp, htext⟩ := mem_landing_iff.1 he
    obtain ⟨g, hg, hp', htext'⟩ := mem_landing_iff.1 he'
    rw [← htext, ← htext']
    exact hfiles f hf g hg (by rw [hp, hp', hplace])

/-- How a comparing run ends that has found a number of files out of date. -/
def verdict (drifted : Nat) : Except Report Unit :=
  if 0 < drifted then
    .error ⟨toString drifted ++ " generated file(s) out of date; rerun without --check", none⟩
  else .ok ()

/-- Ends a run as its verdict says. -/
def conclude (drifted : Nat) : RunT (StateM FileTree) Unit :=
  if 0 < drifted then
    throw ⟨toString drifted ++ " generated file(s) out of date; rerun without --check", none⟩
  else pure ()

theorem ends_conclude (drifted : Nat) (c : Console) (t : FileTree) :
    ends (conclude drifted) c t = ((verdict drifted, c), t) := by
  unfold conclude verdict
  split
  · rfl
  · rfl

theorem runGenerate_eq (colored : Bool) {request : GenerateRequest} (h : request.noOp = false) :
    runGenerate disk colored request = loadInputs request.inputs >>= fun l =>
      generateAll colored request l.settings l.hints (1 < l.schemas.length) l.schemas 0 >>=
        conclude := by
  unfold runGenerate loadInputs
  rw [if_neg (by simp [h])]
  simp only [bind_assoc, pure_bind]
  rfl

/-- **Checking after generating.** Where a run has written its files:

* inputs that lie at none of the places it wrote to read as before;
* if the inputs read as before, a comparing run ends well exactly if no two files with different texts
  went to one place. Otherwise it counts the files that were written over. -/
theorem check_after_generate {t t' : FileTree} {inputs : Inputs} {paths : List String} {out : String}
    {colored : Bool} {c c' : Console} (hroot : t.isDirectory = true)
    (hrun : ends (runGenerate disk colored { inputs, out := some out }) c t = ((.ok (), c'), t'))
    (hbefore : Finds t inputs paths) (hafter : Finds t' inputs paths) :
    ∃ (l : Loaded) (files : Fields String),
      (∃ c₁, ends (loadInputs inputs) c t = ((.ok l, c₁), t)) ∧ l.files out = .ok files ∧
      Readable t' files ∧
      ((∀ path ∈ Inputs.files inputs paths, ∀ f ∈ files, placeOf t' f.1 ≠ placeOf t' path) →
        Spares (· ∈ Inputs.files inputs paths) t t') ∧
      (Spares (· ∈ Inputs.files inputs paths) t t' → ∀ colored c, ∃ c',
        ends (runGenerate disk colored { inputs, out := some out, check := true }) c t' =
          ((verdict (landing t' files).replaced, c'), t')) ∧
      ((landing t' files).replaced = 0 ↔
        ∀ f ∈ files, ∀ g ∈ files, placeOf t' f.1 = placeOf t' g.1 → f.2 = g.2) := by
  rw [runGenerate_eq colored rfl] at hrun
  obtain ⟨l, c₁, t₁, hload, hrest⟩ := of_ends_bind hrun
  obtain ⟨rfl, hagain⟩ := loadInputs_again hbefore hload
  obtain ⟨drifted, c₂, t₂, hwrite, hend⟩ := of_ends_bind hrest
  obtain ⟨files, log, hfiles, hwrote, hplaced⟩ := wrote_generateAll hroot hwrite
  rw [ends_conclude] at hend
  obtain ⟨-, rfl⟩ := Prod.mk.inj hend
  obtain ⟨hreadable, hdrift⟩ := drift_of_placed hwrote hplaced (List.Subset.refl log)
  refine ⟨l, files, ⟨c₁, hload⟩, hfiles, hreadable, spares_of_placed hwrote hplaced, ?_,
    replaced_landing_eq_zero_iff hreadable⟩
  -- the second run loads the same, so it compares the files that the first one has written
  intro hspares colored c
  obtain ⟨say, hload'⟩ := hagain hafter hspares
  obtain ⟨c₃, hcheck⟩ := ends_checkAll hfiles hreadable (say c) 0
  refine ⟨c₃, ?_⟩
  rw [runGenerate_eq colored rfl, ends_bind_ok (hload' c), ends_bind_ok hcheck, ends_conclude,
    Nat.zero_add, hdrift, landing_of_placed hplaced]
  rfl

/-- Two schemas of different titles in files of one name. -/
def sameStem : FileTree := ofFiles [("a/x", "\x7b\x7d"), ("b/x", "\x7b\"title\":\"a\"\x7d")]

def sameStemRequest : GenerateRequest := { inputs := { schemas := ["a/x", "b/x"] }, out := some "o" }

/-- The disk after their files were written. -/
def sameStemAfter : FileTree := (ends (runGenerate disk false sameStemRequest) {} sameStem).2

/-- The interface for the first of them is written over, and that is found out of date. -/
theorem check_after_generate_sameStem :
    ∃ drifted, 0 < drifted ∧
      ∀ colored c, ∃ c', ends (runGenerate disk colored { sameStemRequest with check := true }) c
        sameStemAfter = ((verdict drifted, c'), sameStemAfter) := by
  have hends : (ends (runGenerate disk false sameStemRequest) {} sameStem).1.1 = .ok () := by
    decide +kernel
  have hrun : ends (runGenerate disk false sameStemRequest) {} sameStem =
      ((.ok (), (ends (runGenerate disk false sameStemRequest) {} sameStem).1.2), sameStemAfter) :=
    Prod.ext (Prod.ext hends rfl) rfl
  have hplain : ∀ path ∈ sameStemRequest.inputs.schemas, Glob.isPattern path = false := by
    decide +kernel
  obtain ⟨l, files, ⟨c₁, hload⟩, hfiles, -, hspared, hcheck, hsame⟩ :=
    check_after_generate (by decide +kernel) hrun (finds_of_plain _ hplain) (finds_of_plain _ hplain)
  -- no file goes to a place of the schemas, and both interfaces have the path `o/x/ISNode.cs`
  have hplan : ∃ files ∈ (ends (loadInputs sameStemRequest.inputs) {} sameStem).1.1.toOption.bind
      fun l => (l.files "o").toOption,
        (∀ path ∈ ["a/x", "b/x"], ∀ f ∈ files,
          placeOf sameStemAfter f.1 ≠ placeOf sameStemAfter path) ∧
        ∃ f ∈ files.drop 1, ∃ g ∈ files.drop 3, f.1 = g.1 ∧ f.2 ≠ g.2 := by
    decide +kernel
  obtain ⟨files', hfiles', hapart, f, hf, g, hg, hpath, htext⟩ := hplan
  have hsome : files' = files := by
    rw [show sameStemRequest.inputs = { schemas := ["a/x", "b/x"] } from rfl, hload] at hfiles'
    simpa [Except.toOption, hfiles, eq_comm] using hfiles'
  subst hsome
  refine ⟨_, ?_, hcheck (hspared hapart)⟩
  rw [Nat.pos_iff_ne_zero, ne_eq, hsame]
  intro hagree
  exact htext (hagree f (List.mem_of_mem_drop hf) g (List.mem_of_mem_drop hg) (by rw [hpath]))

end Run

end Classwright
