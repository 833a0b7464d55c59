import Classwright.Proofs.Disk.Places

/-!
# What was written to a disk

A run writes files and makes directories. What it leaves behind is told by the log of its writes: at each
place stands the text that was written there last, and elsewhere nothing has changed but for directories
that were made.

* **`Wrote`** — the disk before and after a log of writes. Logs are put together by `Wrote.append`.
* **`Wrote.resolve`** — paths lead where they led before, since directories and files stay what they are.
* **`Wrote.read`** — files at other places read as before.
* **`wrote_write`**, **`Builds.createDirectories`** — one operation.
-/

namespace Classwright.FileTree

/-- The places and texts of files, in the order in which they were written. -/
abbrev Log := List (Place × String)

/-- The text that was written to a place last. -/
def Log.last? : Log → Place → Option String
  | [], _ => none
  | (q, text) :: log, p => (Log.last? log p).or (if q = p then some text else none)

theorem Log.last?_append (log log' : Log) (p : Place) :
    Log.last? (log ++ log') p = (Log.last? log' p).or (Log.last? log p) := by
  induction log with
  | nil => simp [last?]
  | cons e log ih => rw [List.cons_append, last?, last?, ih, Option.or_assoc]

theorem Log.mem_of_last? {log : Log} {p : Place} {text : String} (h : log.last? p = some text) :
    (p, text) ∈ log := by
  induction log with
  | nil => cases h
  | cons e log ih =>
    obtain ⟨q, written⟩ := e
    rw [last?, Option.or_eq_some_iff] at h
    rcases h with h | ⟨-, h⟩
    · exact List.mem_cons_of_mem _ (ih h)
    · split at h
      · next heq =>
        cases h
        rw [heq]
        exact List.mem_cons_self
      · cases h

theorem Log.exists_last? {log : Log} {p : Place} (h : p ∈ log.map Prod.fst) :
    ∃ text, log.last? p = some text := by
  induction log with
  | nil => cases h
  | cons e log ih =>
    obtain ⟨q, written⟩ := e
    rw [last?]
    rcases List.mem_cons.1 h with rfl | h
    · rw [if_pos rfl]
      cases Log.last? log p with
      | none => exact ⟨written, rfl⟩
      | some text => exact ⟨text, rfl⟩
    · obtain ⟨text, hlast⟩ := ih h
      exact ⟨text, by rw [hlast]; rfl⟩

/-! ## The disk after a log -/

/-- What a log of writes, with directories made on the way, makes of a disk. -/
structure Wrote (t : FileTree) (log : Log) (t' : FileTree) : Prop where
  kept : ∀ p, log.last? p = none →
    t'.look p = t.look p ∨ t.look p = none ∧ t'.look p = some .directory
  written : ∀ p text, log.last? p = some text →
    t'.look p = some (.file text) ∧ t.look p ≠ some .directory

namespace Wrote

variable {t t₁ t' : FileTree} {log log' : Log} {p : Place}

theorem refl (t : FileTree) : Wrote t [] t := by
  constructor
  case kept => exact fun _ _ => Or.inl rfl
  case written =>
    intro p text h
    cases h

theorem directory (h : Wrote t log t') (hp : t.look p = some .directory) :
    t'.look p = some .directory := by
  cases hlast : log.last? p with
  | some text => exact absurd hp (h.written p text hlast).2
  | none =>
    rcases h.kept p hlast with hkept | ⟨hnone, -⟩
    · rw [hkept, hp]
    · rw [hnone] at hp
      cases hp

theorem ne_none (h : Wrote t log t') (hp : t.look p ≠ none) : t'.look p ≠ none := by
  cases hlast : log.last? p with
  | some text => simp [(h.written p text hlast).1]
  | none =>
    rcases h.kept p hlast with hkept | ⟨hnone, -⟩
    · rw [hkept]
      exact hp
    · exact absurd hnone hp

theorem file (h : Wrote t log t') (hlast : log.last? p = none) {text : String}
    (hp : t.look p = some (.file text)) : t'.look p = some (.file text) := by
  rcases h.kept p hlast with hkept | ⟨hnone, -⟩
  · rw [hkept, hp]
  · rw [hnone] at hp
    cases hp

theorem append (h : Wrote t log t₁) (h' : Wrote t₁ log' t') : Wrote t (log ++ log') t' := by
  constructor
  case kept =>
    intro p hlast
    rw [Log.last?_append, Option.or_eq_none_iff] at hlast
    rcases h.kept p hlast.2 with hkept | ⟨hnone, hmade⟩
    · rw [← hkept]
      exact h'.kept p hlast.1
    · -- a directory made under the first log stays one under the second
      exact Or.inr ⟨hnone, h'.directory hmade⟩
  case written =>
    intro p text hlast
    rw [Log.last?_append, Option.or_eq_some_iff] at hlast
    rcases hlast with hlast | ⟨hnone, hlast⟩
    · obtain ⟨hnew, hfree⟩ := h'.written p text hlast
      exact ⟨hnew, fun hdir => hfree (h.directory hdir)⟩
    · obtain ⟨hnew, hfree⟩ := h.written p text hlast
      exact ⟨h'.file hnone hnew, hfree⟩

theorem isDirectory (h : Wrote t log t') (hroot : t.isDirectory = true) : t'.isDirectory = true := by
  have hlook := h.directory (look_root hroot)
  rw [look_nil] at hlook
  exact entry_eq_directory_iff.1 (Option.some.inj hlook)

/-- **Paths lead where they led before.** The induction is on the parts of the path; a place that was
missing at its end may be there now, and it is the same place. -/
theorem follow (h : Wrote t log t') {parts : List String} {q : Place}
    (hfollow : follow t.look p parts = .ok q) : FileTree.follow t'.look p parts = .ok q := by
  fun_induction FileTree.follow t.look p parts with
  | case1 p => exact hfollow
  | case3 p rest hdir ih =>
    rw [FileTree.follow, if_neg (not_not.2 (h.directory (not_not.1 hdir))), if_pos rfl]
    exact ih hfollow
  | case4 p rest hdir hdot ih =>
    rw [FileTree.follow, if_neg (not_not.2 (h.directory (not_not.1 hdir))), if_neg hdot, if_pos rfl]
    exact ih hfollow
  | case6 p name rest hdir hdot hup hlong hnone hlast =>
    -- the last part was missing; whether it still is makes no difference to the place
    rw [List.isEmpty_iff] at hlast
    cases hfollow
    rw [hlast, FileTree.follow, if_neg (not_not.2 (h.directory (not_not.1 hdir))), if_neg hdot,
      if_neg hup, if_neg hlong]
    split
    · rfl
    · rfl
  | case8 p name rest hdir hdot hup hlong hsome ih =>
    rw [FileTree.follow, if_neg (not_not.2 (h.directory (not_not.1 hdir))), if_neg hdot, if_neg hup,
      if_neg hlong, if_neg (h.ne_none hsome)]
    exact ih hfollow
  | _ => cases hfollow

theorem resolve (h : Wrote t log t') {path : String} (hresolve : resolve t.look path = .ok p) :
    FileTree.resolve t'.look path = .ok p := by
  unfold FileTree.resolve at hresolve ⊢
  split at hresolve
  · cases hresolve
  · next hzero =>
    rw [if_neg hzero]
    split at hresolve
    · cases hresolve
    · next hempty =>
      rw [if_neg hempty]
      split at hresolve
      · cases hresolve
      · next hlong =>
        rw [if_neg hlong]
        exact h.follow hresolve

/-- A file that lies at no place of the log still has its text. -/
theorem read (h : Wrote t log t') {path text : String} (hread : t.read path = .ok text)
    (hfree : ∀ p, FileTree.resolve t'.look path = .ok p → p ∉ log.map Prod.fst) :
    t'.read path = .ok text := by
  obtain ⟨p, hresolve, hfile, hslash⟩ := read_eq_ok_iff.1 hread
  have hresolve' := h.resolve hresolve
  have hlast : log.last? p = none := by
    cases hlast : log.last? p with
    | none => rfl
    | some _ => exact absurd (List.mem_map_of_mem (Log.mem_of_last? hlast)) (hfree p hresolve')
  exact read_eq_ok_iff.2 ⟨p, hresolve', h.file hlast hfile, hslash⟩

end Wrote

/-! ## The operations -/

variable {t t' : FileTree} {path text : String}

theorem wrote_write (hroot : t.isDirectory = true) (h : t.write path text = .ok t') :
    ∃ p, FileTree.resolve t.look path = .ok p ∧ Path.endsInSlash path = false ∧
      Wrote t [(p, text)] t' := by
  obtain ⟨p, hresolve, hslash, hfree, hlook⟩ := look_write hroot h
  refine ⟨p, hresolve, hslash, ?_⟩
  constructor
  case kept =>
    intro q hlast
    rw [hlook, if_neg]
    · exact Or.inl rfl
    · rintro rfl
      simp [Log.last?] at hlast
  case written =>
    intro q text' hlast
    have hq := Log.mem_of_last? hlast
    rw [List.mem_singleton, Prod.mk.injEq] at hq
    obtain ⟨rfl, rfl⟩ := hq
    rw [hlook, if_pos rfl]
    exact ⟨rfl, hfree⟩

theorem wrote_makeDirectory (hroot : t.isDirectory = true) (h : t.makeDirectory path = .ok t') :
    Wrote t [] t' := by
  obtain ⟨p, hnone, hlook⟩ := look_makeDirectory hroot h
  constructor
  case kept =>
    intro q _
    rw [hlook]
    split
    · next heq => exact Or.inr ⟨heq ▸ hnone, rfl⟩
    · exact Or.inl rfl
  case written =>
    intro q text hlast
    cases hlast

/-- Steps that make directories and do nothing else, whatever they come to. -/
def Builds {α : Type} (x : StateM FileTree α) : Prop :=
  ∀ t, t.isDirectory = true → Wrote t [] (x t).2

namespace Builds

variable {α β : Type}

theorem of_reading {x : StateM FileTree α} (h : ∀ t, (x t).2 = t) : Builds x := by
  intro t _
  rw [h]
  exact Wrote.refl t

theorem bind {x : StateM FileTree α} {f : α → StateM FileTree β} (hx : Builds x)
    (hf : ∀ a, Builds (f a)) : Builds (x >>= f) := by
  intro t hroot
  have hfirst := hx t hroot
  exact hfirst.append (hf _ _ (hfirst.isDirectory hroot))

theorem makeDirectory (path : String) : Builds (disk.makeDirectory path) := by
  intro t hroot
  unfold disk change
  dsimp only
  cases hmake : t.makeDirectory path with
  | ok t' => exact wrote_makeDirectory hroot hmake
  | error fault => exact Wrote.refl t

theorem ensureDirectory (path : String) : Builds (disk.ensureDirectory path) := by
  unfold Disk.ensureDirectory
  refine (makeDirectory path).bind fun result => ?_
  split
  · exact (of_reading fun _ => rfl).bind fun _ => of_reading fun _ => rfl
  · exact of_reading fun _ => rfl

theorem ensureAll (paths : List String) : Builds (disk.ensureAll paths) := by
  induction paths with
  | nil => exact of_reading fun _ => rfl
  | cons path above ih =>
    unfold Disk.ensureAll
    refine (ensureDirectory path).bind fun result => ?_
    split
    · refine ih.bind fun result => ?_
      split
      · exact ensureDirectory path
      · exact of_reading fun _ => rfl
    · exact of_reading fun _ => rfl

theorem createDirectories (path : String) : Builds (disk.createDirectories path) := by
  unfold Disk.createDirectories
  split
  · exact of_reading fun _ => rfl
  · exact ensureAll _

end Builds

end Classwright.FileTree
