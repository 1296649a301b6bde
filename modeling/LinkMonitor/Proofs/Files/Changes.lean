import LinkMonitor.Proofs.Files.Paths

/-!
# Changes to trees

A tree is changed in two ways: directories are made, and files are written.  Both leave all
directories where they are (`KeepsDirectories`), so that a path which leads somewhere still leads
there.  New directories leave the files alone as well (`Grows`), also when one of several cannot be
made.  A file that is written can be read (`read_write`); any other file is still read as before,
unless it is the same one by another path (`read_or_read_of_write`).

`Creatable` says that writing a file with a path would succeed, once directories have been made for
it.  This does not depend on what is written, and holds of every path that leads to a file.
-/

namespace LinkMonitor.FileTree

variable {t t' t'' : FileTree} {path path' : String} {paths : List String} {p q : Place}
  {part : List Char} {parts : List (List Char)} {e : Entry} {bytes bytes' : List UInt8}

/-! ## Keeping directories -/

/-- The directories of a tree are directories of another tree too. -/
structure KeepsDirectories (t t' : FileTree) : Prop where
  workDir : t'.workDir = t.workDir
  directory {p : Place} : t.entryAt? p = some .directory → t'.entryAt? p = some .directory

namespace KeepsDirectories

theorem enter (h : KeepsDirectories t t') (hp : t.enter p part = .ok q) :
    t'.enter p part = .ok q := by
  have hdir := entryAt?_of_enter hp
  rw [FileTree.enter, hdir] at hp
  rw [FileTree.enter, h.directory hdir]
  exact hp

theorem follow (h : KeepsDirectories t t') (hp : t.follow p parts = .ok q) :
    t'.follow p parts = .ok q := by
  induction parts generalizing p with
  | nil => exact hp
  | cons part parts ih =>
      obtain ⟨r, hr, hrest⟩ := follow_cons_eq_ok_iff.mp hp
      exact follow_cons_eq_ok_iff.mpr ⟨r, h.enter hr, ih hrest⟩

theorem origin (h : KeepsDirectories t t') : t'.origin path = t.origin path := by
  rw [FileTree.origin, FileTree.origin, h.workDir]

theorem locate (h : KeepsDirectories t t') (hp : t.locate path = .ok p) :
    t'.locate path = .ok p := by
  obtain ⟨hpath, hp⟩ := locate_eq_ok_iff.mp hp
  exact locate_eq_ok_iff.mpr ⟨hpath, h.origin ▸ h.follow hp⟩

theorem target (h : KeepsDirectories t t') (hp : t.target path = .ok p) :
    t'.target path = .ok p := by
  obtain ⟨hpath, hp⟩ := target_eq_ok_iff.mp hp
  exact target_eq_ok_iff.mpr ⟨hpath, h.origin ▸ h.follow hp⟩

end KeepsDirectories

/-- The root cannot be replaced, but it is a directory. -/
theorem entryAt?_put (hp : t.entryAt? p ≠ some .directory) (e : Entry) :
    (t.put p e).entryAt? p = some e := by
  refine entryAt?_put_self t e ?_
  rintro rfl
  exact hp rfl

/-- Something new can be put anywhere but in the place of a directory. -/
theorem keepsDirectories_put (hp : t.entryAt? p ≠ some .directory) (e : Entry) :
    KeepsDirectories t (t.put p e) where
  workDir := rfl
  directory {q} hq := by
    have hne : q ≠ p := by
      rintro rfl
      exact hp hq
    rw [entryAt?_put_of_ne t e hne, hq]

/-! ## What paths name -/

theorem read_eq_ok_iff : t.read path = .ok bytes ↔ ∃ p, t.find path = .ok (p, .file bytes) := by
  unfold read
  cases h : t.find path with
  | error _ => simp
  | ok found =>
      obtain ⟨p, e⟩ := found
      cases e <;> simp

theorem isFile_iff : t.isFile path = true ↔ ∃ bytes, t.read path = .ok bytes := by
  unfold isFile read
  cases h : t.find path with
  | error _ => simp
  | ok found =>
      obtain ⟨p, e⟩ := found
      cases e <;> simp

theorem isDirectory_iff : t.isDirectory path = true ↔ ∃ p, t.find path = .ok (p, .directory) := by
  unfold isDirectory
  cases h : t.find path with
  | error _ => simp
  | ok found =>
      obtain ⟨p, e⟩ := found
      cases e <;> simp

theorem exists_of_read (h : t.read path = .ok bytes) : t.exists? path = true := by
  obtain ⟨p, hp⟩ := read_eq_ok_iff.mp h
  simp [exists?, hp, Except.toBool]

theorem isDirectory_of_exists (h : t.exists? path = true) (hfile : t.isFile path = false) :
    t.isDirectory path = true := by
  unfold exists? at h
  unfold isFile at hfile
  unfold isDirectory
  cases hp : t.find path with
  | error _ => simp [hp, Except.toBool] at h
  | ok found =>
      obtain ⟨p, e⟩ := found
      cases e with
      | directory => rfl
      | file => simp [hp] at hfile

/-! ## Growing -/

/-- A tree has grown to another one if nothing but directories is new. -/
structure Grows (t t' : FileTree) : Prop where
  workDir : t'.workDir = t.workDir
  entry (p : Place) : t'.entryAt? p = t.entryAt? p ∨
    t.entryAt? p = none ∧ t'.entryAt? p = some .directory

/-- Two trees have the same files with the same contents. -/
def SameFiles (t t' : FileTree) : Prop :=
  ∀ p bytes, t.entryAt? p = some (.file bytes) ↔ t'.entryAt? p = some (.file bytes)

namespace Grows

theorem refl (t : FileTree) : Grows t t := ⟨rfl, fun _ ↦ .inl rfl⟩

theorem trans (h : Grows t t') (h' : Grows t' t'') : Grows t t'' := by
  refine ⟨h'.workDir.trans h.workDir, fun p ↦ ?_⟩
  have := h.entry p
  have := h'.entry p
  grind

theorem keepsDirectories (h : Grows t t') : KeepsDirectories t t' where
  workDir := h.workDir
  directory {p} hp := by simpa [hp] using h.entry p

theorem sameFiles (h : Grows t t') : SameFiles t t' := by
  intro p bytes
  have := h.entry p
  grind

/-- What a path names stays what it is. -/
theorem find (h : Grows t t') (hp : t.find path = .ok (p, e)) : t'.find path = .ok (p, e) := by
  obtain ⟨hp, he⟩ := find_eq_ok_iff.mp hp
  refine find_eq_ok_iff.mpr ⟨h.keepsDirectories.locate hp, ?_⟩
  simpa [he] using h.entry p

theorem read (h : Grows t t') (hp : t.read path = .ok bytes) : t'.read path = .ok bytes := by
  obtain ⟨p, hp⟩ := read_eq_ok_iff.mp hp
  exact read_eq_ok_iff.mpr ⟨p, h.find hp⟩

theorem isDirectory (h : Grows t t') (hd : t.isDirectory path = true) :
    t'.isDirectory path = true := by
  obtain ⟨p, hp⟩ := isDirectory_iff.mp hd
  exact isDirectory_iff.mpr ⟨p, h.find hp⟩

end Grows

/-! ## Making directories -/

theorem makeDirectory_eq_ok_iff : t.makeDirectory path = .ok t' ↔
    ∃ p, t.target path = .ok p ∧ t.entryAt? p = none ∧ t' = t.put p .directory := by
  unfold makeDirectory
  cases h : t.target path with
  | error _ => simp [Except.bind]
  | ok p =>
      cases he : t.entryAt? p with
      | none => simp [Except.bind, he, eq_comm]
      | some _ => simp [Except.bind, he]

theorem grows_put (h : t.entryAt? p = none) : Grows t (t.put p .directory) where
  workDir := rfl
  entry q := by
    by_cases hq : q = p
    · subst hq
      exact .inr ⟨h, entryAt?_put (by simp [h]) _⟩
    · exact .inl (entryAt?_put_of_ne t _ hq)

/-- A directory that has been made is there, and it is all that is new. -/
theorem grows_makeDirectory (h : t.makeDirectory path = .ok t') :
    Grows t t' ∧ t'.isDirectory path = true := by
  obtain ⟨p, hp, hnone, rfl⟩ := makeDirectory_eq_ok_iff.mp h
  have hgrows := grows_put hnone
  have hdir := entryAt?_put (t := t) (p := p) (by simp [hnone]) .directory
  have hlocate := locate_of_target (hgrows.keepsDirectories.target hp) (.inl hdir)
  exact ⟨hgrows, isDirectory_iff.mpr ⟨p, find_eq_ok_iff.mpr ⟨hlocate, hdir⟩⟩⟩

/-- Directories are all that is new, and the first of them is there unless one could not be made. -/
theorem grows_makeDirectories (t : FileTree) (paths : List String) :
    Grows t (t.makeDirectories paths).1 ∧
      ((t.makeDirectories paths).2 = .ok () →
        ∀ path ∈ paths.head?, (t.makeDirectories paths).1.isDirectory path = true) := by
  -- A directory is made at once, or after those above it, or it cannot be made.  It might be there
  -- nevertheless in the last case.
  induction paths with
  | nil => exact ⟨.refl t, by simp⟩
  | cons path above ih =>
      rw [makeDirectories]
      split
      · rename_i t' h
        have := grows_makeDirectory h
        exact ⟨this.1, by simpa using this.2⟩
      · split
        · rename_i t' _ h
          rw [h] at ih
          exact ⟨ih.1, by simp⟩
        · rename_i t' h
          rw [h] at ih
          split
          · rename_i t'' h'
            have := grows_makeDirectory h'
            exact ⟨ih.1.trans this.1, by simpa using this.2⟩
          · refine ⟨ih.1, fun hok ↦ ?_⟩
            simpa using hok
      · refine ⟨.refl t, fun hok ↦ ?_⟩
        simpa using hok

/-- Nothing is made if the first directory is there. -/
theorem makeDirectories_of_isDirectory (h : ∀ path ∈ paths.head?, t.isDirectory path = true) :
    t.makeDirectories paths = (t, .ok ()) := by
  cases paths with
  | nil => rfl
  | cons path above =>
      have hdir := h path rfl
      obtain ⟨p, hp⟩ := isDirectory_iff.mp hdir
      obtain ⟨hlocate, he⟩ := find_eq_ok_iff.mp hp
      have hmake : t.makeDirectory path = .error .alreadyExists := by
        rw [makeDirectory, target_of_locate hlocate]
        simp [Except.bind, he]
      rw [makeDirectories, hmake]
      simp [hdir]

/-- Directories that have been made need not be made again. -/
theorem makeDirectories_again (h : t.makeDirectories paths = (t', .ok ())) :
    t'.makeDirectories paths = (t', .ok ()) := by
  have := (grows_makeDirectories t paths).2
  rw [h] at this
  exact makeDirectories_of_isDirectory (this rfl)

/-- No directory has to be made for a file that is there. -/
theorem makeDirectories_above_of_read (h : t.read path = .ok bytes) :
    t.makeDirectories (Path.above path) = (t, .ok ()) := by
  obtain ⟨p, hp⟩ := read_eq_ok_iff.mp h
  refine makeDirectories_of_isDirectory fun d hd ↦ ?_
  obtain ⟨above, habove⟩ := List.head?_eq_some_iff.mp (Option.mem_def.mp hd)
  exact isDirectory_of_find_eq_file hp habove

/-! ## Writing -/

theorem write_eq_ok_iff : t.write path bytes = .ok t' ↔
    ∃ p, t.target path = .ok p ∧ t.entryAt? p ≠ some .directory ∧
      path.toList.getLast? ≠ some '/' ∧ t' = t.put p (.file bytes) := by
  unfold write
  cases h : t.target path with
  | error _ => simp [Except.bind]
  | ok p =>
      by_cases hp : t.entryAt? p = some .directory ∨ path.toList.getLast? = some '/'
      · simp only [Except.bind, if_pos hp]
        grind
      · simp only [Except.bind, if_neg hp]
        grind

/-- Whether a file can be written does not depend on what is written. -/
theorem exists_write (h : t.write path bytes = .ok t') (bytes' : List UInt8) :
    ∃ t'', t.write path bytes' = .ok t'' := by
  obtain ⟨p, hp, hdir, hslash, -⟩ := write_eq_ok_iff.mp h
  exact ⟨_, write_eq_ok_iff.mpr ⟨p, hp, hdir, hslash, rfl⟩⟩

theorem exists_write_of_read (h : t.read path = .ok bytes) (bytes' : List UInt8) :
    ∃ t', t.write path bytes' = .ok t' := by
  obtain ⟨p, hp⟩ := read_eq_ok_iff.mp h
  obtain ⟨hlocate, hfile⟩ := find_eq_ok_iff.mp hp
  exact ⟨_, write_eq_ok_iff.mpr ⟨p, target_of_locate hlocate, by simp [hfile],
    getLast?_ne_slash_of_file hp, rfl⟩⟩

/-- What has been written is read. -/
theorem read_write (h : t.write path bytes = .ok t') : t'.read path = .ok bytes := by
  obtain ⟨p, hp, hdir, hslash, rfl⟩ := write_eq_ok_iff.mp h
  refine read_eq_ok_iff.mpr ⟨p, find_eq_ok_iff.mpr ⟨?_, entryAt?_put hdir _⟩⟩
  exact locate_of_target ((keepsDirectories_put hdir _).target hp) (.inr hslash)

/-- A file is read as before after another one has been written.  Both may be the same. -/
theorem read_or_read_of_write (h : t.read path = .ok bytes) (hw : t.write path' bytes' = .ok t') :
    t'.read path = .ok bytes ∨ t'.read path = .ok bytes' := by
  obtain ⟨p, hp⟩ := read_eq_ok_iff.mp h
  obtain ⟨hlocate, hfile⟩ := find_eq_ok_iff.mp hp
  obtain ⟨q, -, hdir, -, rfl⟩ := write_eq_ok_iff.mp hw
  have hlocate := (keepsDirectories_put hdir (.file bytes')).locate hlocate
  by_cases hq : p = q
  · subst hq
    exact .inr (read_eq_ok_iff.mpr ⟨p, find_eq_ok_iff.mpr ⟨hlocate, entryAt?_put hdir _⟩⟩)
  · refine .inl (read_eq_ok_iff.mpr ⟨p, find_eq_ok_iff.mpr ⟨hlocate, ?_⟩⟩)
    rw [entryAt?_put_of_ne t _ hq, hfile]

/-- A directory cannot be written. -/
theorem isDirectory_eq_false_of_write (h : t.write path bytes = .ok t') :
    t.isDirectory path = false := by
  obtain ⟨p, hp, hdir, -⟩ := write_eq_ok_iff.mp h
  rw [Bool.eq_false_iff, ne_eq, isDirectory_iff]
  rintro ⟨q, hq⟩
  obtain ⟨hlocate, he⟩ := find_eq_ok_iff.mp hq
  have := target_of_locate hlocate
  rw [hp] at this
  cases this
  exact hdir he

/-! ## Files that can be created -/

/-- A file with a path can be written, after directories have been made as needed. -/
def Creatable (t : FileTree) (path : String) : Prop :=
  ∃ t₁ t₂, t.makeDirectories (Path.above path) = (t₁, .ok ()) ∧ t₁.write path [] = .ok t₂

theorem creatable_of_read (h : t.read path = .ok bytes) : t.Creatable path := by
  obtain ⟨t', ht'⟩ := exists_write_of_read h []
  exact ⟨t, t', makeDirectories_above_of_read h, ht'⟩

theorem creatable_of_isFile (h : t.isFile path = true) : t.Creatable path := by
  obtain ⟨bytes, hread⟩ := isFile_iff.mp h
  exact creatable_of_read hread

theorem not_creatable_of_isDirectory (h : t.isDirectory path = true) : ¬ t.Creatable path := by
  rintro ⟨t₁, t₂, hmake, hwrite⟩
  have hgrows := (grows_makeDirectories t (Path.above path)).1
  rw [hmake] at hgrows
  simpa [isDirectory_eq_false_of_write hwrite] using hgrows.isDirectory h

end LinkMonitor.FileTree
