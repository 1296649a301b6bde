import LinkMonitor.Command.Run
import LinkMonitor.Proofs.Command.Setup
import LinkMonitor.Proofs.Files.Changes

/-!
# Commands that fail leave the files alone

A command on a catalog file has one catalog to write, or none (`Command.writes?`).  This is settled
before the tree is touched: all that the command depends on has been read and checked by then.  So
there are three ends to a run (`Ends`).  Either the command is refused, and the tree stays as it is;
or the file cannot be created, and there may be new directories; or the catalog is written.

The other commands do not change the tree.  Together this gives what a command line may do to the
files of a tree (`filesKept_runLine`).
-/

namespace LinkMonitor

open LinkMonitor.Setup LinkMonitor.Text

/-! ## What there is to write -/

/-- What a catalog file holds.  A file that is not there holds nothing. -/
def Catalogs.contents (t : FileTree) (path : String) : Except TableError (List MessageFormat) :=
  if t.exists? path then Table.load t path else .ok []

/-- The entries of the company are changed by an administrator only. -/
def CatalogFile.permits (file : CatalogFile) : Bool :=
  ({ administrator := file.administrator } : Registry).permits file.catalog

/-- A registry that holds formats as the catalog of a file. -/
def CatalogFile.registry (file : CatalogFile) (fs : List MessageFormat) : Registry :=
  ({ administrator := file.administrator } : Registry).replace fs file.catalog

@[simp] theorem CatalogFile.list_registry (file : CatalogFile) (fs : List MessageFormat) :
    (file.registry fs).list file.catalog = fs :=
  Registry.list_replace_self fs

@[simp] theorem CatalogFile.permits_registry (file : CatalogFile) (fs : List MessageFormat) :
    (file.registry fs).permits file.catalog = file.permits := by
  unfold CatalogFile.permits CatalogFile.registry
  cases file.catalog <;> rfl

/-- The catalog that a command has to write, and the path of its file. -/
def Command.writes? (t : FileTree) : Command → Option (String × List MessageFormat)
  | .add file f =>
    if file.permits then
      (Catalogs.contents t file.path).toOption.map fun fs ↦ (file.path, fs ++ [f])
    else none
  | .remove file i =>
    if file.permits then
      (Catalogs.contents t file.path).toOption.bind fun fs ↦
        if i < fs.length then some (file.path, fs.eraseIdx i) else none
    else none
  | .importFrom source path =>
    (if t.isFile source ∧ ¬ t.same source path then (Table.load t source).toOption
      else none).map fun fs ↦ (path, fs)
  | .exportTo target path =>
    (if t.isFile path ∧ ¬ t.same path target then (Table.load t path).toOption
      else none).map fun fs ↦ (target, fs)
  | _ => none

/-- How a run of a command ends that has a catalog to write, or none. -/
inductive Ends (t : FileTree) : Option (String × List MessageFormat) → Outcome → Prop
  /-- Nothing is written, and no directory is made. -/
  | refused (failure : Failure) : Ends t none { result := .error failure, tree := t }
  /-- The file cannot be created. -/
  | failed {path : String} {fs : List MessageFormat} (failure : Failure)
      (h : ¬ t.Creatable path) :
      Ends t (some (path, fs))
        { result := .error failure, tree := (t.makeDirectories (Path.above path)).1 }
  | written {path : String} {fs : List MessageFormat} {t₁ t₂ : FileTree} (line : String)
      (made : t.makeDirectories (Path.above path) = (t₁, .ok ()))
      (written : t₁.write path (utf8 (Table.write fs)) = .ok t₂) :
      Ends t (some (path, fs)) { printed := { err := [line] }, tree := t₂ }

namespace Catalogs

variable {t : FileTree} {path : String}

/-! ## Loading and storing -/

theorem requireFile_eq_ok_iff : requireFile t path = .ok () ↔ t.isFile path = true := by
  unfold requireFile FileTree.exists? FileTree.isFile
  cases h : t.find path with
  | error _ => simp [Except.toBool]
  | ok found =>
      obtain ⟨p, e⟩ := found
      cases e <;> simp [Except.toBool]

theorem loadFile_eq (t : FileTree) (file : CatalogFile) :
    loadFile t file =
      ((contents t file.path).map file.registry).mapError (.catalogFile file.path) := by
  unfold loadFile contents
  split
  · rfl
  · cases hc : file.catalog <;> simp [Except.map, Except.mapError, CatalogFile.registry, hc] <;> rfl

theorem ends_store (t : FileTree) (path : String) (fs : List MessageFormat) (line : String) :
    Ends t (some (path, fs)) (store t path fs line) := by
  unfold store
  split
  · rename_i t₁ failure hmake
    have hfailed : ¬ t.Creatable path := by
      rintro ⟨_, _, hmade, -⟩
      simp [hmake] at hmade
    obtain rfl : (t.makeDirectories (Path.above path)).1 = t₁ := by rw [hmake]
    exact .failed _ hfailed
  · rename_i t₁ hmake
    unfold Table.save
    cases hw : t₁.write path (utf8 (Table.write fs)) with
    | ok t₂ => exact .written line hmake hw
    | error e =>
        have hfailed : ¬ t.Creatable path := by
          rintro ⟨_, _, hmade, hwrite⟩
          rw [hmake] at hmade
          cases hmade
          obtain ⟨_, hw'⟩ := FileTree.exists_write hwrite (utf8 (Table.write fs))
          simp [hw] at hw'
        obtain rfl : (t.makeDirectories (Path.above path)).1 = t₁ := by rw [hmake]
        exact .failed _ hfailed

/-! ## The commands -/

theorem ends_add (t : FileTree) (file : CatalogFile) (f : MessageFormat) :
    Ends t ((Command.add file f).writes? t) (add t file f) := by
  unfold add
  rw [loadFile_eq]
  cases hc : contents t file.path with
  | error e =>
      have hnone : (Command.add file f).writes? t = none := by
        simp [Command.writes?, hc, Except.toOption]
      rw [hnone]
      exact .refused _
  | ok fs =>
      cases hp : file.permits with
      | true =>
          have hadd := Registry.add_of_permits ((file.permits_registry fs).trans hp) f
          have hstore := ends_store t file.path (fs ++ [f])
          simpa [Command.writes?, hc, hp, hadd, Except.toOption, Except.map, Except.mapError]
            using hstore _
      | false =>
          have hadd := Registry.add_of_not_permits ((file.permits_registry fs).trans hp) f
          have hnone : (Command.add file f).writes? t = none := by simp [Command.writes?, hp]
          simp only [hnone, Except.map, Except.mapError, hadd]
          exact .refused _

theorem ends_remove (t : FileTree) (file : CatalogFile) (i : Nat) :
    Ends t ((Command.remove file i).writes? t) (remove t file i) := by
  unfold remove
  rw [loadFile_eq]
  cases hc : contents t file.path with
  | error e =>
      have hnone : (Command.remove file i).writes? t = none := by
        simp [Command.writes?, hc, Except.toOption]
      rw [hnone]
      exact .refused _
  | ok fs =>
      by_cases h : file.permits = true ∧ i < fs.length
      · have hplace :
            Registry.place? ((file.registry fs).list file.catalog) (.index i) = some i := by
          simp [Registry.place?, h.2]
        have hremove := Registry.remove_of_place?_eq_some
          ((file.permits_registry fs).trans h.1) hplace
        have hstore := ends_store t file.path (fs.eraseIdx i)
        simpa [Command.writes?, hc, h.1, h.2, hremove, Except.toOption, Except.map,
          Except.mapError] using hstore _
      · have hnone : (Command.remove file i).writes? t = none := by
          simp only [Command.writes?, hc, Except.toOption]
          grind
        have hremove :
            (file.registry fs).remove (.index i) file.catalog = (file.registry fs, false) := by
          refine Registry.remove_eq_false ?_
          simp only [file.permits_registry, file.list_registry, Registry.place?]
          grind
        simp only [hnone, Except.map, Except.mapError, hremove]
        exact .refused _

/-- What another file holds is written if it is a file, but not the one to be written, and holds a
catalog. -/
theorem toOption_copied (t : FileTree) (source target : String) (same : Failure)
    (wrap : TableError → Failure) :
    (do
      requireFile t source
      if t.same source target then .error same
      else (Table.load t source).mapError wrap : Except Failure (List MessageFormat)).toOption =
      if t.isFile source ∧ ¬ t.same source target then (Table.load t source).toOption
      else none := by
  by_cases hf : t.isFile source = true
  · rw [requireFile_eq_ok_iff.mpr hf]
    by_cases hs : t.same source target = true
    · simp [bind, Except.bind, hs, Except.toOption]
    · cases hl : Table.load t source <;>
        simp [bind, Except.bind, hf, hs, Except.mapError, Except.toOption]
  · cases h : requireFile t source with
    | error _ => simp [bind, Except.bind, hf, Except.toOption]
    | ok _ => exact absurd (requireFile_eq_ok_iff.mp h) hf

theorem ends_loaded (t : FileTree) (path : String) (loaded : Except Failure (List MessageFormat))
    (line : List MessageFormat → String) :
    Ends t (loaded.toOption.map fun fs ↦ (path, fs))
      (match loaded with
      | .error e => { result := .error e, tree := t }
      | .ok fs => store t path fs (line fs)) := by
  cases loaded with
  | error e => exact .refused e
  | ok fs => exact ends_store t path fs (line fs)

theorem ends_importFrom (t : FileTree) (source path : String) :
    Ends t ((Command.importFrom source path).writes? t) (importFrom t source path) := by
  rw [Command.writes?, ← toOption_copied t source path (.importsItself source)
    (.importSource source)]
  exact ends_loaded t path _ _

theorem ends_exportTo (t : FileTree) (target path : String) :
    Ends t ((Command.exportTo target path).writes? t) (exportTo t target path) := by
  rw [Command.writes?, ← toOption_copied t path target (.exportsItself target)
    (.catalogFile path)]
  exact ends_loaded t target _ _

end Catalogs

/-! ## Runs -/

namespace Command

variable {t : FileTree} {path : String} {fs : List MessageFormat} {c : Command}

/-- A command that does not work with both catalogs ends in one of three ways. -/
theorem ends_run (h : c.catalogs? = none) (t : FileTree) (stamp : String) :
    Ends t (c.writes? t) (c.run t stamp) := by
  cases c with
  | decode | send | list => contradiction
  | add file f => exact Catalogs.ends_add t file f
  | remove file i => exact Catalogs.ends_remove t file i
  | importFrom source path => exact Catalogs.ends_importFrom t source path
  | exportTo target path => exact Catalogs.ends_exportTo t target path

/-- A command that works with both catalogs only reads. -/
theorem tree_run (h : c.catalogs?.isSome = true) (t : FileTree) (stamp : String) :
    (c.run t stamp).tree = t := by
  cases c with
  | decode input catalogs size output strict =>
      simp only [run, Decoding.decode]
      split
      · rfl
      · split
        · rfl
        · split <;> rfl
  | send tokens catalogs output =>
      simp only [run, Decoding.send]
      split
      · rfl
      · split <;> rfl
  | list catalogs json =>
      simp only [run, Catalogs.list]
      split <;> rfl
  | add | remove | importFrom | exportTo => contradiction

end Command

namespace Ends

variable {t : FileTree} {path : String} {fs : List MessageFormat} {o : Outcome}
  {writes? : Option (String × List MessageFormat)}

/-- A run that fails makes directories at most. -/
theorem grows (h : Ends t writes? o) (hcode : o.code = 2) : t.Grows o.tree := by
  cases h with
  | refused => exact .refl t
  | @failed path => exact (FileTree.grows_makeDirectories t (Path.above path)).1
  | written => simp [Outcome.code] at hcode

theorem code_of_none (h : Ends t none o) : o.code = 2 := by
  cases h
  rfl

/-- A run succeeds if there is something to write, and a file for it can be created. -/
theorem code_eq_zero_iff (h : Ends t (some (path, fs)) o) : o.code = 0 ↔ t.Creatable path := by
  cases h with
  | failed _ h => simp [Outcome.code, h]
  | written _ made written =>
      obtain ⟨t₂, hw⟩ := FileTree.exists_write written []
      simp only [Outcome.code, true_iff]
      exact ⟨_, t₂, made, hw⟩

theorem read_of_creatable (h : Ends t (some (path, fs)) o) (hp : t.Creatable path) :
    o.tree.read path = .ok (utf8 (Table.write fs)) := by
  cases h with
  | failed _ h => contradiction
  | written _ _ written => exact FileTree.read_write written

end Ends

theorem Outcome.code_eq_zero_or_two (o : Outcome) : o.code = 0 ∨ o.code = 2 := by
  unfold code
  cases o.result with
  | ok => exact .inl rfl
  | error => exact .inr rfl

/-- What a command line does to the files of a tree, if it spells a command or none. -/
structure FilesKept (t : FileTree) (command? : Option Command) (exit : Exit) : Prop where
  code : exit.code = 0 ∨ exit.code = 2
  /-- A run that fails changes no file and makes none. -/
  sameFiles : exit.code = 2 → t.SameFiles exit.tree
  /-- After a run that fails, every file is still read by each of its paths. -/
  read {path : String} {bytes : List UInt8} : exit.code = 2 → t.read path = .ok bytes →
    exit.tree.read path = .ok bytes
  /-- Decoding, sending and listing, which work with both catalogs, do not change the tree, whether
  they fail or not.  Neither does a command line that spells no command. -/
  unchanged : (∀ c, command? = some c → c.catalogs?.isSome = true) → exit.tree = t
  /-- Any other command fails if it has nothing to write. -/
  refused {c : Command} : command? = some c → c.catalogs? = none → c.writes? t = none →
    exit.code = 2
  /-- If it has something to write, it succeeds as soon as the file can be created, and writes it.
  -/
  written {c : Command} {path : String} {fs : List MessageFormat} : command? = some c →
    c.writes? t = some (path, fs) → (exit.code = 0 ↔ t.Creatable path) ∧
      (exit.code = 0 → exit.tree.read path = .ok (utf8 (Table.write fs)))

theorem Command.catalogs?_of_writes? {t : FileTree} {c : Command}
    {write : String × List MessageFormat} (h : c.writes? t = some write) : c.catalogs? = none := by
  cases c with
  | decode | send | list => contradiction
  | add | remove | importFrom | exportTo => rfl

/-- **Runs that fail leave the files alone.**  This holds of every command line and every tree.  A
run that fails may have made directories, but the files are the same, with the same contents.  Only
a run that succeeds writes a file, and only if its command has one to write. -/
theorem filesKept_runLine (t : FileTree) (stamp : String) (args : List String) :
    FilesKept t (Command.parse? args) (runLine t stamp args) := by
  unfold runLine Command.parse?
  cases Command.parse args with
  | error e =>
      exact ⟨.inr rfl, fun _ ↦ (FileTree.Grows.refl t).sameFiles, fun _ h ↦ h, fun _ ↦ rfl, nofun,
        nofun⟩
  | ok c =>
      have hgrows (hcode : (c.run t stamp).code = 2) : t.Grows (c.run t stamp).tree := by
        cases hc : c.catalogs? with
        | none => exact (Command.ends_run hc t stamp).grows hcode
        | some _ =>
            rw [Command.tree_run (by simp [hc])]
            exact .refl t
      constructor
      case code => exact Outcome.code_eq_zero_or_two _
      case sameFiles => exact fun hcode ↦ (hgrows hcode).sameFiles
      case read => exact fun hcode h ↦ (hgrows hcode).read h
      case unchanged => exact fun hc ↦ Command.tree_run (hc c rfl) t stamp
      case refused =>
        rintro _ ⟨⟩ hc hw
        have := Command.ends_run hc t stamp
        rw [hw] at this
        exact this.code_of_none
      case written =>
        rintro _ path fs ⟨⟩ hw
        have := Command.ends_run (Command.catalogs?_of_writes? hw) t stamp
        rw [hw] at this
        exact ⟨this.code_eq_zero_iff, fun h ↦ this.read_of_creatable (this.code_eq_zero_iff.mp h)⟩

/-- Directories that have been made stay, also if the file cannot be created. -/
example :
    let exit := runLine {} "" ["formats", "add", "--catalog-file", "sub/catalog/", "--id-high", "1",
      "--id-low", "2", "--name", "Speed"]
    exit.code = 2 ∧ exit.tree.entries = [(["sub"], .directory)] := by
  decide +kernel

end LinkMonitor
