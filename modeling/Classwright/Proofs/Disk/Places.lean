import Mathlib.Data.List.Infix
import Classwright.Disk.Tree
import Classwright.Proofs.Json.Induction

/-!
# File trees as maps from places

A file tree is a map from places to what is there: a file with its text, or a directory. Everything
that a disk does can be said in terms of that map (`FileTree.look`). A path leads to a place
(`resolve`), reading looks the place up, writing and making directories change what is at one place.

The directories above the working directory and the root are there even if the tree has nothing under
their names, so the map has directories at such places (`isEdge`).

* **`locate_eq`** — following a path down a tree and resolving it in the map come to the same.
* **`look_set`** — putting a leaf at a place that can be reached changes the map there and nowhere else.
* **`read_eq_ok_iff`**, **`look_write`**, **`look_makeDirectory`** — the operations on the map.
-/

namespace Classwright

/-- What is at a place. -/
inductive Entry where
  | file (text : String)
  | directory
deriving DecidableEq, Repr

namespace FileTree

def entry : FileTree → Entry
  | file text => .file text
  | directory _ => .directory

/-- The places where there is a directory in any case. -/
def isEdge (p : Place) : Bool := p.all (· = "..") || p = ["/"]

def look (t : FileTree) (p : Place) : Option Entry :=
  ((t.get? p).map entry).or (if isEdge p then some .directory else none)

/-! ## Resolving paths -/

/-- The place above a place. -/
def above (p : Place) : Place :=
  if p.all (· = "..") then p ++ [".."] else if p = ["/"] then p else p.dropLast

def follow (at? : Place → Option Entry) (p : Place) : List String → Except DiskFault Place
  | [] => .ok p
  | name :: rest =>
    if at? p ≠ some .directory then .error .notADirectory
    else if name = "." then follow at? p rest
    else if name = ".." then follow at? (above p) rest
    else if maxName < name.utf8ByteSize then .error .nameTooLong
    else if at? (p ++ [name]) = none then
      if rest.isEmpty then .ok (p ++ [name]) else .error .notFound
    else follow at? (p ++ [name]) rest

/-- The place that a path leads to, by what is at places. -/
def resolve (at? : Place → Option Entry) (path : String) : Except DiskFault Place :=
  if path.toList.contains '\x00' then .error .zeroInName
  else if path.isEmpty then .error .notFound
  else if maxPath < path.utf8ByteSize then .error .nameTooLong
  else follow at? (if Path.isAbsolute path then ["/"] else []) (Path.parts path)

theorem get?_append (t : FileTree) (p q : Place) :
    t.get? (p ++ q) = (t.get? p).bind (·.get? q) := by
  induction p generalizing t with
  | nil => rfl
  | cons name p ih =>
    rw [List.cons_append, get?, get?]
    cases t.child? name with
    | none => rfl
    | some below => exact ih below

theorem get?_concat (t : FileTree) (p : Place) (name : String) :
    t.get? (p ++ [name]) = (t.get? p).bind (·.child? name) := by
  rw [get?_append]
  congr 1
  funext u
  rw [get?]
  cases u.child? name with
  | none => rfl
  | some below => rfl

/-- What stands at a place: something in the tree, or the empty directory of an edge. -/
def Stands (t : FileTree) (p : Place) (u : FileTree) : Prop :=
  t.get? p = some u ∨ t.get? p = none ∧ isEdge p = true ∧ u = empty

theorem Stands.look {t u : FileTree} {p : Place} (h : t.Stands p u) : t.look p = some u.entry := by
  unfold FileTree.look
  rcases h with h | ⟨h, hedge, rfl⟩
  · rw [h]
    rfl
  · rw [h, hedge]
    rfl

theorem Stands.child {t u below : FileTree} {p : Place} {name : String} (h : t.Stands p u)
    (hchild : u.child? name = some below) : t.Stands (p ++ [name]) below := by
  rcases h with h | ⟨-, -, rfl⟩
  · left
    rw [get?_concat, h]
    exact hchild
  · cases hchild

theorem Stands.edge {t u : FileTree} {p : Place} {name : String} (h : t.Stands p u)
    (hedge : isEdge (p ++ [name]) = true) :
    t.Stands (p ++ [name]) ((u.child? name).getD empty) := by
  cases hchild : u.child? name with
  | some below => exact h.child hchild
  | none =>
    right
    refine ⟨?_, hedge, rfl⟩
    rw [get?_concat]
    rcases h with h | ⟨h, -⟩
    · rw [h]
      exact hchild
    · rw [h]
      rfl

theorem Stands.look_child {t u : FileTree} {p : Place} {name : String} (h : t.Stands p u)
    (hup : name ≠ "..") (hroot : name ≠ "/") :
    t.look (p ++ [name]) = (u.child? name).map entry := by
  cases hchild : u.child? name with
  | some below => exact (h.child hchild).look
  | none =>
    have hget : t.get? (p ++ [name]) = none := by
      rw [get?_concat]
      rcases h with h | ⟨h, -⟩
      · rw [h]
        exact hchild
      · rw [h]
        rfl
    have hedge : isEdge (p ++ [name]) = false := by
      unfold isEdge
      rw [Bool.or_eq_false_iff]
      constructor
      · simp [hup]
      · rw [decide_eq_false_iff_not]
        intro heq
        cases p with
        | nil => exact hroot (List.cons.inj heq).1
        | cons first p => simp at heq
    unfold FileTree.look
    rw [hget, hedge]
    rfl

/-- A trail passes what stands at its places. -/
def Trail.Leads (t : FileTree) : Trail → Prop
  | [] => True
  | (name, below) :: trail => Leads t trail ∧ t.Stands (Trail.place ((name, below) :: trail)) below

theorem Trail.place_cons (name : String) (below : FileTree) (trail : Trail) :
    Trail.place ((name, below) :: trail) = trail.place ++ [name] := by
  simp [Trail.place]

theorem Trail.Leads.here {t : FileTree} {trail : Trail} (h : trail.Leads t) :
    t.Stands trail.place (trail.here t) := by
  cases trail with
  | nil => exact Or.inl rfl
  | cons last trail => exact h.2

theorem Trail.place_up {t : FileTree} (trail : Trail) : (trail.up t).place = above trail.place := by
  have habove : trail.place.all (· = "..") = trail.isAbove := by
    simp [Trail.place, Trail.isAbove, List.all_map, Function.comp_def]
  unfold Trail.up above
  rw [habove]
  split
  · rw [Trail.place_cons]
  · split
    · rfl
    · next hother =>
      have hroot : trail.place ≠ ["/"] := by
        intro heq
        rcases trail with _ | ⟨⟨name, below⟩, _ | ⟨second, trail⟩⟩
        · cases heq
        · cases heq
          exact hother below rfl
        · have hlength := congrArg List.length heq
          simp [Trail.place] at hlength
      rw [if_neg hroot]
      cases trail with
      | nil => rfl
      | cons last trail => rw [Trail.place_cons, List.dropLast_concat]; rfl

theorem Trail.Leads.up {t : FileTree} {trail : Trail} (h : trail.Leads t) : (trail.up t).Leads t := by
  unfold Trail.up
  split
  · next habove =>
    refine ⟨h, ?_⟩
    rw [Trail.place_cons]
    refine h.here.edge ?_
    have hall : trail.place.all (· = "..") = true := by
      rw [← habove]
      simp [Trail.place, Trail.isAbove, List.all_map, Function.comp_def]
    unfold isEdge
    rw [List.all_append, hall]
    rfl
  · split
    · exact h
    · cases trail with
      | nil => exact h
      | cons last trail => exact h.1

theorem entry_eq_directory_iff {u : FileTree} : u.entry = .directory ↔ u.isDirectory = true := by
  cases u <;> simp [entry, isDirectory]

/-- **Following a path down a tree and resolving it in the map come to the same.** The induction is on the
path; the trail keeps to what stands at its places. -/
theorem walk_eq {t : FileTree} {trail : Trail} (h : trail.Leads t) {parts : List String}
    (hparts : "/" ∉ parts) :
    (t.walk trail parts).map (fun target => (target.place, target.found.map entry)) =
      (follow t.look trail.place parts).map fun p => (p, t.look p) := by
  induction parts generalizing trail with
  | nil =>
    simp only [walk, follow, Except.map, h.here.look]
    rfl
  | cons name rest ih =>
    rw [List.mem_cons, not_or] at hparts
    have hlook := h.here.look
    rw [walk, follow, hlook]
    by_cases hdir : (trail.here t).isDirectory = true
    · rw [if_neg (show ¬ (!(trail.here t).isDirectory) = true by simp [hdir]),
        if_neg (not_not.2 (congrArg some (entry_eq_directory_iff.2 hdir)))]
      by_cases hdot : name = "."
      · rw [if_pos hdot, if_pos hdot]
        exact ih h hparts.2
      rw [if_neg hdot, if_neg hdot]
      by_cases hup : name = ".."
      · rw [if_pos hup, if_pos hup, ← Trail.place_up (t := t)]
        exact ih h.up hparts.2
      rw [if_neg hup, if_neg hup]
      by_cases hlong : maxName < name.utf8ByteSize
      · rw [if_pos hlong, if_pos hlong]
        rfl
      rw [if_neg hlong, if_neg hlong]
      have hnext := h.here.look_child hup (Ne.symm hparts.1)
      cases hchild : (trail.here t).child? name with
      | some below =>
        have hsome : t.look (trail.place ++ [name]) ≠ none := by
          rw [hnext, hchild]
          exact Option.some_ne_none _
        have hleads : Trail.Leads t ((name, below) :: trail) := by
          refine ⟨h, ?_⟩
          rw [Trail.place_cons]
          exact h.here.child hchild
        rw [if_neg hsome, ← Trail.place_cons name below]
        exact ih hleads hparts.2
      | none =>
        -- only the last part of a path may be missing, and both sides stop there
        have hnone : t.look (trail.place ++ [name]) = none := by
          rw [hnext, hchild]
          rfl
        rw [if_pos hnone]
        dsimp only
        split
        · simp only [Except.map, hnone]
          rfl
        · rfl
    · rw [if_pos (show (!(trail.here t).isDirectory) = true by simpa using hdir),
        if_pos fun heq => hdir (entry_eq_directory_iff.1 (Option.some.inj heq))]
      rfl

theorem slash_not_mem_segments (s : List Char) : ∀ segment ∈ Path.segments s, '/' ∉ segment := by
  induction s with
  | nil => simp [Path.segments]
  | cons c s ih =>
    rw [Path.segments]
    split
    · intro segment hmem
      rcases List.mem_cons.1 hmem with rfl | hmem
      · exact List.not_mem_nil
      · exact ih segment hmem
    · next hc =>
      split
      · simpa using Ne.symm hc
      · next first others heq =>
        rw [heq] at ih
        intro segment hmem
        rcases List.mem_cons.1 hmem with rfl | hmem
        · rw [List.mem_cons, not_or]
          exact ⟨Ne.symm hc, ih first List.mem_cons_self⟩
        · exact ih segment (List.mem_cons_of_mem _ hmem)

theorem slash_not_mem_parts (path : String) : "/" ∉ Path.parts path := by
  intro hmem
  unfold Path.parts at hmem
  obtain ⟨segment, hsegment, heq⟩ := List.mem_map.1 (List.mem_filter.1 hmem).1
  refine slash_not_mem_segments _ segment hsegment ?_
  rw [← String.toList_ofList (l := segment), heq]
  decide

theorem locate_eq (t : FileTree) (path : String) :
    (t.locate path).map (fun target => (target.place, target.found.map entry)) =
      (resolve t.look path).map fun p => (p, t.look p) := by
  unfold locate resolve
  split
  · rfl
  split
  · rfl
  split
  · rfl
  have hparts := slash_not_mem_parts path
  split
  · have hleads : Trail.Leads t [("/", (t.child? "/").getD empty)] :=
      ⟨trivial, Stands.edge (p := []) (Or.inl rfl) rfl⟩
    exact walk_eq hleads hparts
  · have hleads : Trail.Leads t [] := trivial
    exact walk_eq hleads hparts

/-! ## Places that can be reached -/

/-- Whether everything on the way to a place is a directory. -/
def Reachable (at? : Place → Option Entry) (p : Place) : Prop :=
  ∀ q name, q ++ [name] <+: p → at? q = some .directory

variable {at? : Place → Option Entry} {p q : Place}

theorem Reachable.concat (h : Reachable at? p) (hdir : at? p = some .directory) (name : String) :
    Reachable at? (p ++ [name]) := by
  intro q last hway
  rcases List.prefix_concat_iff.1 hway with heq | hway
  · rw [(List.append_inj' heq rfl).1]
    exact hdir
  · exact h q last hway

theorem Reachable.above (h : Reachable at? p) (hdir : at? p = some .directory) :
    Reachable at? (above p) := by
  unfold FileTree.above
  split
  · exact h.concat hdir ".."
  split
  · exact h
  · intro q name hway
    exact h q name (hway.trans (List.dropLast_prefix p))

theorem Reachable.follow {parts : List String} (h : Reachable at? p)
    (hfollow : follow at? p parts = .ok q) : Reachable at? q := by
  fun_induction FileTree.follow at? p parts with
  | case1 p =>
    cases hfollow
    exact h
  | case3 p rest hdir ih => exact ih h hfollow
  | case4 p rest hdir _ ih => exact ih (h.above (not_not.1 hdir)) hfollow
  | case6 p name rest hdir =>
    cases hfollow
    exact h.concat (not_not.1 hdir) name
  | case8 p name rest hdir _ _ _ _ ih => exact ih (h.concat (not_not.1 hdir) name) hfollow
  | _ => cases hfollow

theorem reachable_of_resolve {path : String} (hroot : at? [] = some .directory)
    (h : resolve at? path = .ok p) : Reachable at? p := by
  have hhere : Reachable at? [] := by
    intro q name hway
    simp at hway
  unfold resolve at h
  split at h
  · cases h
  split at h
  · cases h
  split at h
  · cases h
  refine Reachable.follow ?_ h
  split
  · exact hhere.concat hroot "/"
  · exact hhere

/-! ## Putting a leaf into a tree -/

theorem get?_cons_directory (entries : List (String × FileTree)) (name : String) (p : Place) :
    (directory entries).get? (name :: p) = (Fields.get? entries name).bind (·.get? p) := by
  rw [get?, child?]
  cases Fields.get? entries name with
  | none => rfl
  | some below => rfl

/-- Below a name of a directory, where nothing may stand yet. The name itself is left out then: an empty
directory is made there. -/
theorem get?_below (entries : List (String × FileTree)) (name : String) {p : Place}
    (h : p ≠ [] ∨ (Fields.get? entries name).isSome) :
    ((Fields.get? entries name).getD empty).get? p = (directory entries).get? (name :: p) := by
  rw [get?_cons_directory]
  cases hbelow : Fields.get? entries name with
  | some below => rfl
  | none =>
    cases p with
    | nil => simp [hbelow] at h
    | cons second p => rfl

/-- What a tree holds after a leaf was put into it. The induction is on the place of the leaf, and what is
on the way there is a directory or nothing. -/
theorem entry_set {t leaf : FileTree} (hleaf : ∀ name, leaf.child? name = none)
    (hway : ∀ r name, r ++ [name] <+: q → ∀ u, t.get? r = some u → u.isDirectory = true)
    (hbelow : ∀ name rest, t.get? (q ++ name :: rest) = none) (p : Place) :
    ((t.set q leaf).get? p).map entry =
      if p = q then some leaf.entry else if p <+: q then some .directory
      else (t.get? p).map entry := by
  induction q generalizing t p with
  | nil =>
    rw [set]
    cases p with
    | nil => rfl
    | cons name p =>
      have hnone := hbelow name p
      rw [List.nil_append] at hnone
      rw [get?, hleaf, hnone]
      simp
  | cons name q ih =>
    cases t with
    | file text => exact absurd (hway [] name (by simp) _ rfl) Bool.false_ne_true
    | directory entries =>
      rw [set]
      cases p with
      | nil => simp [get?, entry]
      | cons first p =>
        rw [get?_cons_directory, Fields.get?_insert]
        by_cases hfirst : first = name
        · subst hfirst
          rw [if_pos rfl, Option.bind_some]
          rw [ih ?_ ?_]
          · simp only [List.cons.injEq, true_and, List.cons_prefix_cons]
            split
            · rfl
            split
            · rfl
            · next hne hway =>
              rw [get?_below]
              left
              rintro rfl
              exact hway List.nil_prefix
          · intro r last hlast u hu
            by_cases hr : r ≠ [] ∨ (Fields.get? entries first).isSome
            · rw [get?_below entries first hr] at hu
              refine hway (first :: r) last ?_ u hu
              rw [List.cons_append, List.cons_prefix_cons]
              exact ⟨rfl, hlast⟩
            · -- the directory that is made at the name
              rw [not_or, not_not, Bool.not_eq_true, Option.isSome_eq_false_iff,
                Option.isNone_iff_eq_none] at hr
              rw [hr.1, hr.2] at hu
              cases hu
              rfl
          · intro second rest
            rw [get?_below entries first (Or.inl (by simp))]
            exact hbelow second rest
        · rw [if_neg hfirst, ← get?_cons_directory, if_neg fun heq => hfirst (List.cons.inj heq).1,
            if_neg fun hway => hfirst (List.cons_prefix_cons.1 hway).1]

theorem look_nil (t : FileTree) : t.look [] = some t.entry := by
  simp [look, get?]

/-- **A leaf at a place that can be reached changes what is at that place**, and nothing else. -/
theorem look_set {t leaf : FileTree} (hleaf : ∀ name, leaf.child? name = none)
    (hq : Reachable t.look q) (hfree : t.look q ≠ some .directory) (p : Place) :
    (t.set q leaf).look p = if p = q then some leaf.entry else t.look p := by
  have hget (r : Place) (u : FileTree) (hu : t.get? r = some u) : t.look r = some u.entry := by
    simp [look, hu]
  have hway : ∀ r name, r ++ [name] <+: q → ∀ u, t.get? r = some u → u.isDirectory = true := by
    intro r name hway u hu
    have hdir := hq r name hway
    rw [hget r u hu] at hdir
    exact entry_eq_directory_iff.1 (Option.some.inj hdir)
  have hbelow : ∀ name rest, t.get? (q ++ name :: rest) = none := by
    intro name rest
    rw [get?_append]
    cases hu : t.get? q with
    | none => rfl
    | some u =>
      cases u with
      | file text => rfl
      | directory entries => exact absurd (hget q _ hu) hfree
  have hset := entry_set hleaf hway hbelow p
  unfold look
  rw [hset]
  by_cases hpq : p = q
  · rw [if_pos hpq, if_pos hpq]
    rfl
  rw [if_neg hpq, if_neg hpq]
  by_cases hway : p <+: q
  · -- a directory on the way was there before
    obtain ⟨rest, rfl⟩ := hway
    cases rest with
    | nil => simp at hpq
    | cons name rest =>
      have hdir := hq p name ⟨rest, by simp⟩
      unfold look at hdir
      rw [if_pos (List.prefix_append p _), hdir]
      rfl
  · rw [if_neg hway]

/-! ## The operations of a disk -/

variable {t t' : FileTree} {path text : String}

theorem resolve_of_locate {target : Target} (h : t.locate path = .ok target) :
    resolve t.look path = .ok target.place ∧ t.look target.place = target.found.map entry := by
  have hlocate := locate_eq t path
  rw [h] at hlocate
  cases hresolve : resolve t.look path with
  | error fault =>
    rw [hresolve] at hlocate
    cases hlocate
  | ok p =>
    rw [hresolve] at hlocate
    simp only [Except.map, Except.ok.injEq, Prod.mk.injEq] at hlocate
    rw [hlocate.1, hlocate.2]
    exact ⟨rfl, rfl⟩

theorem locate_of_resolve (h : resolve t.look path = .ok p) :
    ∃ found, t.locate path = .ok ⟨p, found⟩ ∧ found.map entry = t.look p := by
  have hlocate := locate_eq t path
  rw [h] at hlocate
  cases hlocated : t.locate path with
  | error fault =>
    rw [hlocated] at hlocate
    cases hlocate
  | ok target =>
    rw [hlocated] at hlocate
    simp only [Except.map, Except.ok.injEq, Prod.mk.injEq] at hlocate
    obtain ⟨rfl, hfound⟩ := hlocate
    exact ⟨target.found, rfl, hfound⟩

/-- A path is read if it leads to a file and does not ask for a directory. -/
theorem read_eq_ok_iff :
    t.read path = .ok text ↔ ∃ p, resolve t.look path = .ok p ∧ t.look p = some (.file text) ∧
      Path.endsInSlash path = false := by
  have hread (target : Target) (h : t.locate path = .ok target) :
      t.read path = .ok text ↔
        target.found = some (file text) ∧ Path.endsInSlash path = false := by
    unfold read lookUp
    rw [h]
    rcases target with ⟨p, _ | (text' | entries)⟩
    · simp [bind, Except.bind]
    · cases Path.endsInSlash path <;> simp [bind, Except.bind]
    · simp [bind, Except.bind]
  have hentry (found : Option FileTree) :
      found = some (file text) ↔ found.map entry = some (.file text) := by
    rcases found with _ | (text' | entries) <;> simp [entry]
  constructor
  · intro h
    cases hlocated : t.locate path with
    | error fault =>
      unfold read lookUp at h
      rw [hlocated] at h
      cases h
    | ok target =>
      obtain ⟨hresolve, hlook⟩ := resolve_of_locate hlocated
      obtain ⟨hfound, hslash⟩ := (hread target hlocated).1 h
      exact ⟨target.place, hresolve, hlook.trans ((hentry _).1 hfound), hslash⟩
  · rintro ⟨p, hresolve, hlook, hslash⟩
    obtain ⟨found, hlocated, hfound⟩ := locate_of_resolve hresolve
    exact (hread _ hlocated).2 ⟨(hentry _).2 (hfound.trans hlook), hslash⟩

theorem look_root (hroot : t.isDirectory = true) : t.look [] = some .directory := by
  rw [look_nil, entry_eq_directory_iff.2 hroot]

theorem look_write (hroot : t.isDirectory = true) (h : t.write path text = .ok t') :
    ∃ p, resolve t.look path = .ok p ∧ Path.endsInSlash path = false ∧
      t.look p ≠ some .directory ∧
      ∀ q, t'.look q = if q = p then some (.file text) else t.look q := by
  unfold write at h
  cases hlocated : t.locate path with
  | error fault =>
    rw [hlocated] at h
    cases h
  | ok target =>
    obtain ⟨hresolve, hlook⟩ := resolve_of_locate hlocated
    have hwritten : (if Path.endsInSlash path then .error DiskFault.isADirectory
        else .ok (t.set target.place (file text))) = Except.ok t' ∧
        t.look target.place ≠ some .directory := by
      rw [hlocated] at h
      rcases target with ⟨p, _ | (text' | entries)⟩
      · exact ⟨h, by simp [hlook]⟩
      · exact ⟨h, by simp [hlook, entry]⟩
      · cases h
    obtain ⟨hwritten, hfree⟩ := hwritten
    split at hwritten
    · cases hwritten
    · next hslash =>
      cases hwritten
      refine ⟨target.place, hresolve, by simpa using hslash, hfree, fun q => ?_⟩
      exact look_set (fun _ => rfl) (reachable_of_resolve (look_root hroot) hresolve) hfree q

theorem look_makeDirectory (hroot : t.isDirectory = true) (h : t.makeDirectory path = .ok t') :
    ∃ p, t.look p = none ∧ ∀ q, t'.look q = if q = p then some .directory else t.look q := by
  unfold makeDirectory at h
  cases hlocated : t.locate path with
  | error fault =>
    rw [hlocated] at h
    cases h
  | ok target =>
    obtain ⟨hresolve, hlook⟩ := resolve_of_locate hlocated
    rw [hlocated] at h
    rcases target with ⟨p, _ | found⟩
    · cases h
      refine ⟨p, hlook, fun q => ?_⟩
      exact look_set (fun _ => rfl) (reachable_of_resolve (look_root hroot) hresolve)
        (by simp [hlook]) q
    · cases h

end FileTree

end Classwright
