import LinkMonitor.Proofs.Command.Catalogs
import LinkMonitor.Proofs.Table.RoundTrip

/-!
# Catalog files as lists

The commands on a catalog file edit a list of formats.  Any sequence of them can be followed on a
list in memory (`Held.next`), and after every run the file reads back as this list, if it is there
(`conforms_runs`).

What a run leaves behind has to be good enough for the next one.  So the invariant (`Holds`) knows
two states of a file.  A file that is there is read as the list.  A file that is not there stands
for the empty list, and can be made, or it can never be made.
-/

namespace LinkMonitor

open LinkMonitor.Text

/-! ## Operations on a catalog file -/

/-- How entries of a catalog file are edited: as those of the site, or as those of the company, by
an administrator. -/
inductive Access where
  | site (administrator : Bool)
  | company
deriving DecidableEq, Repr

namespace Access

def file (path : String) : Access → CatalogFile
  | .site administrator => { path, catalog := .site, administrator }
  | .company => { path, catalog := .company, administrator := true }

@[simp] theorem path_file (a : Access) (path : String) : (a.file path).path = path := by
  cases a <;> rfl

@[simp] theorem permits_file (a : Access) (path : String) : (a.file path).permits = true := by
  cases a <;> rfl

end Access

/-- What one command does to a catalog file. -/
inductive Operation where
  | add (access : Access) (format : MessageFormat)
  | remove (access : Access) (index : Nat)
  | importFrom (source : String)
  | exportTo (target : String)
deriving DecidableEq, Repr

namespace Operation

def command (path : String) : Operation → Command
  | .add access f => .add (access.file path) f
  | .remove access i => .remove (access.file path) i
  | .importFrom source => .importFrom source path
  | .exportTo target => .exportTo target path

/-- Whether an operation writes the catalog file itself. -/
def edits : Operation → Bool
  | .exportTo _ => false
  | _ => true

/-- The list that an operation makes of a list.  There is none if the operation fails. -/
def list? (t : FileTree) (path : String) (fs : List MessageFormat) :
    Operation → Option (List MessageFormat)
  | .add _ f => some (fs ++ [f])
  | .remove _ i => if i < fs.length then some (fs.eraseIdx i) else none
  | .importFrom source =>
    if t.isFile source ∧ ¬ t.same source path then (Table.load t source).toOption else none
  | .exportTo _ => some fs

/-- The list after an operation.  An operation that fails leaves it as it is. -/
def after (t : FileTree) (path : String) (fs : List MessageFormat) (op : Operation) :
    List MessageFormat :=
  (op.list? t path fs).getD fs

theorem catalogs?_command (path : String) (op : Operation) :
    (op.command path).catalogs? = none := by
  cases op <;> rfl

end Operation

/-! ## The state of a catalog file -/

/-- What a path stands for as a catalog file. -/
inductive Holds (t : FileTree) (path : String) (fs : List MessageFormat) : Prop
  /-- The file is there. -/
  | present {bytes : List UInt8} (read : t.read path = .ok bytes)
      (formats : Table.read bytes = .ok fs)
  /-- The file is not there.  Directories for it can be made, but it might be impossible to make the
  file itself. -/
  | missing {t₁ : FileTree} (absent : t.isFile path = false)
      (made : t.makeDirectories (Path.above path) = (t₁, .ok ()))
      (empty : t.Creatable path → fs = [])

namespace Holds

variable {t t' t₁ : FileTree} {path : String} {fs fs' : List MessageFormat} {bytes : List UInt8}

theorem load_of_read (h : t.read path = .ok bytes) : Table.load t path = Table.read bytes := by
  simp only [Table.load, h]

/-- A catalog that is written is there. -/
theorem of_written (h : t.read path = .ok (utf8 (Table.write fs))) : Holds t path fs :=
  .present h (Table.ofRecords_of_rows (Table.rows_write fs))

/-- A file that cannot be created can still not be created when its directories have been made. -/
theorem of_not_creatable (hmade : t.makeDirectories (Path.above path) = (t₁, .ok ()))
    (h : ¬ t.Creatable path) (fs : List MessageFormat) : Holds t₁ path fs := by
  have hagain := FileTree.makeDirectories_again hmade
  have h₁ : ¬ t₁.Creatable path := by
    rintro ⟨_, t₂, hmade', hwrite⟩
    rw [hagain] at hmade'
    cases hmade'
    exact h ⟨t₁, t₂, hmade, hwrite⟩
  have habsent : t₁.isFile path = false :=
    Bool.eq_false_iff.mpr fun hfile ↦ h₁ (FileTree.creatable_of_isFile hfile)
  exact .missing habsent hagain fun hc ↦ absurd hc h₁

theorem load (h : Holds t path fs) (hfile : t.isFile path = true) : Table.load t path = .ok fs := by
  cases h with
  | present read formats => rw [load_of_read read, formats]
  | missing absent => simp [absent] at hfile

/-- What stands for the file is what the commands load, unless the file can never be made. -/
theorem contents (h : Holds t path fs) (hc : t.Creatable path) :
    Catalogs.contents t path = .ok fs := by
  unfold Catalogs.contents
  cases h with
  | present read formats =>
      rw [if_pos (FileTree.exists_of_read read), load_of_read read, formats]
  | missing absent made empty =>
      have hexists : t.exists? path = false := by
        rw [Bool.eq_false_iff]
        intro h
        exact FileTree.not_creatable_of_isDirectory (FileTree.isDirectory_of_exists h absent) hc
      rw [hexists, empty hc]
      rfl

end Holds

/-! ## One operation -/

namespace Operation

variable {t t₁ : FileTree} {path : String} {fs fs' : List MessageFormat} {op : Operation}
  {o : Outcome}

/-- What an editing command has to write is what the operation makes of the list. -/
theorem writes?_command (hop : op.edits = true) (h : Holds t path fs) (hc : t.Creatable path) :
    (op.command path).writes? t = (op.list? t path fs).map fun fs ↦ (path, fs) := by
  cases op with
  | add access f => simp [command, Command.writes?, list?, h.contents hc, Except.toOption]
  | remove access i =>
      simp only [command, Command.writes?, list?, Access.permits_file, Access.path_file,
        h.contents hc, Except.toOption, if_true, Option.bind_some]
      split <;> rfl
  | importFrom source => rfl
  | exportTo target => contradiction

theorem path_of_writes? (hop : op.edits = true) {path' : String}
    (h : (op.command path).writes? t = some (path', fs')) : path' = path := by
  cases op with
  | add access f =>
      simp only [command, Command.writes?, Access.permits_file, Access.path_file, if_true,
        Option.map_eq_some_iff, Prod.mk.injEq] at h
      obtain ⟨_, _, h, _⟩ := h
      exact h.symm
  | remove access i =>
      simp only [command, Command.writes?, Access.permits_file, Access.path_file, if_true,
        Option.bind_eq_some_iff] at h
      obtain ⟨_, _, h⟩ := h
      split at h <;> simp_all
  | importFrom source =>
      simp only [command, Command.writes?, Option.map_eq_some_iff, Prod.mk.injEq] at h
      obtain ⟨_, _, h, _⟩ := h
      exact h.symm
  | exportTo target => contradiction

/-- An export writes the list, unless there is no catalog file or the target is the same file. -/
theorem writes?_exportTo (h : Holds t path fs) (target : String) :
    ((exportTo target).command path).writes? t =
      if t.isFile path = true ∧ ¬ t.same path target then some (target, fs) else none := by
  simp only [command, Command.writes?]
  split
  · rename_i hfile
    simp [h.load hfile.1, Except.toOption]
  · rfl

/-- What may come of editing a catalog file that stands for a list. -/
inductive Edited (t : FileTree) (path : String) (fs : List MessageFormat) (op : Operation)
    (o : Outcome) : Prop
  | written {new : List MessageFormat} (creatable : t.Creatable path)
      (list : op.list? t path fs = some new) (code : o.code = 0)
      (read : o.tree.read path = .ok (utf8 (Table.write new)))
  | refused (list : op.list? t path fs = none) (code : o.code = 2) (tree : o.tree = t)
  /-- The file can never be made, so that nothing is said about the list. -/
  | impossible (creatable : ¬ t.Creatable path) (code : o.code = 2)
      (holds : ∀ fs, Holds o.tree path fs)

theorem edited (hop : op.edits = true) (h : Holds t path fs)
    (ends : Ends t ((op.command path).writes? t) o) : Edited t path fs op o := by
  -- What has to be written is known from the list only if the file can be made.  If it cannot, the
  -- run fails, whatever there is to write.
  by_cases hc : t.Creatable path
  · rw [writes?_command hop h hc] at ends
    cases hlist : op.list? t path fs with
    | none =>
        rw [hlist] at ends
        cases ends
        exact .refused hlist rfl rfl
    | some new =>
        rw [hlist] at ends
        exact .written hc hlist (ends.code_eq_zero_iff.mpr hc) (ends.read_of_creatable hc)
  · cases h with
    | present read => exact absurd (FileTree.creatable_of_read read) hc
    | missing absent made =>
        cases hw : (op.command path).writes? t with
        | none =>
            rw [hw] at ends
            cases ends
            exact .impossible hc rfl fun _ ↦ .missing absent made fun h ↦ absurd h hc
        | some write =>
            obtain ⟨path', new⟩ := write
            obtain rfl := path_of_writes? hop hw
            rw [hw] at ends
            cases ends with
            | failed =>
                refine .impossible hc rfl fun fs ↦ ?_
                rw [made]
                exact .of_not_creatable made hc fs
            | written line made' written =>
                have hcode := (Ends.written line made' written).code_eq_zero_iff
                exact absurd (hcode.mp rfl) hc

/-- What may come of exporting a catalog file that stands for a list. -/
inductive Exported (t : FileTree) (path : String) (fs : List MessageFormat) (target : String)
    (o : Outcome) : Prop
  | written (file : t.isFile path = true) (same : t.same path target = false)
      (creatable : t.Creatable target) (code : o.code = 0)
      (read : o.tree.read target = .ok (utf8 (Table.write fs)))
      (keeps : ∀ bytes, t.read path = .ok bytes →
        o.tree.read path = .ok bytes ∨ o.tree.read path = .ok (utf8 (Table.write fs)))
  | failed (h : ¬ (t.isFile path = true ∧ t.same path target = false ∧ t.Creatable target))
      (code : o.code = 2) (grows : t.Grows o.tree) (tree : t.isFile path = false → o.tree = t)

theorem exported {target : String} (h : Holds t path fs)
    (ends : Ends t (((exportTo target).command path).writes? t) o) :
    Exported t path fs target o := by
  rw [writes?_exportTo h] at ends
  split at ends
  · rename_i hw
    by_cases hc : t.Creatable target
    · refine .written hw.1 (by simpa using hw.2) hc (ends.code_eq_zero_iff.mpr hc)
        (ends.read_of_creatable hc) fun bytes hread ↦ ?_
      cases ends with
      | failed _ h => exact absurd hc h
      | written _ made written =>
          have hgrows := (FileTree.grows_makeDirectories t (Path.above target)).1
          rw [made] at hgrows
          exact FileTree.read_or_read_of_write (hgrows.read hread) written
    · have hcode : o.code = 2 :=
        (Outcome.code_eq_zero_or_two o).resolve_left fun h ↦ hc (ends.code_eq_zero_iff.mp h)
      refine .failed (fun h ↦ hc h.2.2) hcode (ends.grows hcode) fun hfile ↦ ?_
      simp [hfile] at hw
  · rename_i hw
    refine .failed (fun h ↦ hw ⟨h.1, by simp [h.2.1]⟩) ends.code_of_none
      (ends.grows ends.code_of_none) fun _ ↦ ?_
    cases ends
    rfl

/-! ### What the file holds afterwards -/

/-- An edit that succeeds writes the list that the operation gives. -/
theorem Edited.read (h : Edited t path fs op o) (hcode : o.code = 0) :
    o.tree.read path = .ok (utf8 (Table.write (op.after t path fs))) := by
  cases h with
  | written _ list _ read =>
      rw [after, list]
      exact read
  | refused _ code => simp [code] at hcode
  | impossible _ code => simp [code] at hcode

theorem Edited.holds (h : Edited t path fs op o) (hfs : Holds t path fs) :
    Holds o.tree path (op.after t path fs) := by
  have hwritten := h.read
  cases h with
  | written _ _ code => exact .of_written (hwritten code)
  | refused list _ tree =>
      rw [after, list, tree]
      exact hfs
  | impossible _ _ holds => exact holds _

/-- A file that is there is written with the new list, or it is left alone and the list is too. -/
theorem Edited.read_cases (h : Edited t path fs op o) (hfile : t.isFile path = true) :
    o.tree.read path = .ok (utf8 (Table.write (op.after t path fs))) ∨
      o.tree.read path = t.read path ∧ op.after t path fs = fs := by
  have hwritten := h.read
  cases h with
  | written _ _ code => exact .inl (hwritten code)
  | refused list _ tree =>
      rw [after, list, tree]
      exact .inr ⟨rfl, rfl⟩
  | impossible creatable => exact absurd (FileTree.creatable_of_isFile hfile) creatable

/-- The target can be the file itself by another path, but it is written with its own list then. -/
theorem Exported.read_cases {target : String} (h : Exported t path fs target o)
    (hfile : t.isFile path = true) :
    o.tree.read path = .ok (utf8 (Table.write fs)) ∨ o.tree.read path = t.read path := by
  obtain ⟨bytes, hread⟩ := FileTree.isFile_iff.mp hfile
  rw [hread]
  cases h with
  | written _ _ _ _ _ keeps => exact (keeps bytes hread).symm
  | failed _ _ grows => exact .inr (grows.read hread)

theorem Exported.holds {target : String} (h : Exported t path fs target o)
    (hfs : Holds t path fs) : Holds o.tree path fs := by
  cases hfs with
  | present read formats =>
      rcases h.read_cases (FileTree.isFile_iff.mpr ⟨_, read⟩) with hread | hread
      · exact .of_written hread
      · exact .present (hread.trans read) formats
  | missing absent made empty =>
      cases h with
      | written file => simp [absent] at file
      | failed _ _ _ tree =>
          rw [tree absent]
          exact .missing absent made empty

/-! ### Runs of one operation -/

/-- One operation keeps the list and the file together. -/
theorem holds_run (op : Operation) (h : Holds t path fs) (stamp : String) :
    Holds ((op.command path).run t stamp).tree path (op.after t path fs) := by
  have ends := Command.ends_run (op.catalogs?_command path) t stamp
  cases op with
  | add | remove | importFrom => exact (edited rfl h ends).holds h
  | exportTo target => exact (exported h ends).holds h

theorem read_run_cases (op : Operation) (h : Holds t path fs) (hfile : t.isFile path = true)
    (stamp : String) :
    let o := (op.command path).run t stamp
    o.tree.read path = .ok (utf8 (Table.write (op.after t path fs))) ∨
      o.tree.read path = t.read path ∧ op.after t path fs = fs := by
  intro o
  have ends := Command.ends_run (op.catalogs?_command path) t stamp
  cases op with
  | add | remove | importFrom => exact (edited rfl h ends).read_cases hfile
  | exportTo target => exact ((exported h ends).read_cases hfile).imp_right fun hr ↦ ⟨hr, rfl⟩

/-- A file that is there stays there. -/
theorem isFile_run (op : Operation) (h : Holds t path fs) (hfile : t.isFile path = true)
    (stamp : String) : ((op.command path).run t stamp).tree.isFile path = true := by
  rw [FileTree.isFile_iff]
  rcases read_run_cases op h hfile stamp with hread | ⟨hread, -⟩
  · exact ⟨_, hread⟩
  · rw [hread]
    exact FileTree.isFile_iff.mp hfile

/-- A catalog that has been written stays as it would be written, whatever is done next. -/
theorem read_run (op : Operation) (h : t.read path = .ok (utf8 (Table.write fs)))
    (stamp : String) : ((op.command path).run t stamp).tree.read path =
      .ok (utf8 (Table.write (op.after t path fs))) := by
  rcases read_run_cases op (.of_written h) (FileTree.isFile_iff.mpr ⟨_, h⟩) stamp with
    hread | ⟨hread, hafter⟩
  · exact hread
  · rw [hread, hafter, h]

end Operation

/-! ## Sequences of operations -/

/-- A tree with a catalog file, the list that stands for the file, and whether an operation has
written the file. -/
structure Held where
  tree : FileTree
  list : List MessageFormat
  written : Bool := false

/-- What stands for a path at first: the formats in a file, or none if there is no file but the
directory for it is there or can be made. -/
inductive Begins (t : FileTree) (path : String) : List MessageFormat → Prop
  | file {bytes : List UInt8} {fs : List MessageFormat} (read : t.read path = .ok bytes)
      (formats : Table.read bytes = .ok fs) : Begins t path fs
  | nothing {t₁ : FileTree} (absent : t.exists? path = false)
      (made : t.makeDirectories (Path.above path) = (t₁, .ok ())) : Begins t path []

/-- Goes on with one operation, both on the file and on the list. -/
def Held.next (path : String) (h : Held) (step : Operation × String) : Held :=
  let o := (step.1.command path).run h.tree step.2
  { tree := o.tree
    list := step.1.after h.tree path h.list
    written := h.written || (step.1.edits && o.code = 0) }

/-- Goes on with operations, one after the other, each at a time of its own. -/
def Held.nexts (path : String) (h : Held) (steps : List (Operation × String)) : Held :=
  steps.foldl (Held.next path) h

/-- What a run of an operation does to a catalog file and the list that stands for it. -/
structure Conforms (path : String) (h : Held) (op : Operation) (o : Outcome) : Prop where
  /-- The file is read as the list before the run, if it is there, -/
  load : h.tree.isFile path = true → Table.load h.tree path = .ok h.list
  /-- and as the list that the operation gives after it. -/
  load_after : o.tree.isFile path = true →
    Table.load o.tree path = .ok (op.after h.tree path h.list)
  /-- A file that is there stays there. -/
  isFile : h.tree.isFile path = true → o.tree.isFile path = true
  /-- A run fails if the operation on the list does. -/
  fails : op.list? h.tree path h.list = none → o.code = 2
  /-- An edit succeeds otherwise, if the file is there or can be made. -/
  succeeds : op.edits = true → h.tree.isFile path = true ∨ h.tree.Creatable path →
    (op.list? h.tree path h.list).isSome = true → o.code = 0
  /-- An edit that succeeds writes the new list. -/
  edited : op.edits = true → o.code = 0 →
    o.tree.read path = .ok (utf8 (Table.write (op.after h.tree path h.list)))
  /-- An export succeeds if the file is there and can be written to another one. -/
  exports {target : String} : op = .exportTo target → (o.code = 0 ↔
    h.tree.isFile path = true ∧ h.tree.same path target = false ∧ h.tree.Creatable target)
  /-- An export that succeeds writes the list. -/
  exported {target : String} : op = .exportTo target → o.code = 0 →
    o.tree.read target = .ok (utf8 (Table.write h.list))
  /-- It copies a file byte for byte that an operation has written. -/
  copied {target : String} : op = .exportTo target → o.code = 0 → h.written = true →
    o.tree.read target = h.tree.read path

namespace Held

variable {path stamp : String} {h : Held} {op : Operation} {t : FileTree}
  {fs : List MessageFormat}

/-- The list stands for the file, and has been written to it if an operation has succeeded. -/
structure Fits (path : String) (h : Held) : Prop where
  holds : Holds h.tree path h.list
  read : h.written = true → h.tree.read path = .ok (utf8 (Table.write h.list))

theorem fits_of_begins (h : Begins t path fs) : Fits path { tree := t, list := fs } := by
  refine ⟨?_, nofun⟩
  cases h with
  | file read formats => exact .present read formats
  | nothing absent made =>
      refine .missing ?_ made fun _ ↦ rfl
      rw [Bool.eq_false_iff, ne_eq, FileTree.isFile_iff]
      rintro ⟨bytes, hread⟩
      simp [FileTree.exists_of_read hread] at absent

theorem Fits.next (hfits : Fits path h) (op : Operation) (stamp : String) :
    Fits path (h.next path (op, stamp)) := by
  refine ⟨op.holds_run hfits.holds stamp, fun hw ↦ ?_⟩
  simp only [Held.next, Bool.or_eq_true, Bool.and_eq_true, decide_eq_true_eq] at hw
  rcases hw with hw | ⟨hop, hcode⟩
  · exact op.read_run (hfits.read hw) stamp
  · have ends := Command.ends_run (op.catalogs?_command path) h.tree stamp
    exact (Operation.edited hop hfits.holds ends).read hcode

theorem Fits.nexts (hfits : Fits path h) (steps : List (Operation × String)) :
    Fits path (h.nexts path steps) := by
  induction steps generalizing h with
  | nil => exact hfits
  | cons step steps ih => exact ih (hfits.next step.1 step.2)

/-- A run does to the file what the operation does to the list. -/
theorem Fits.conforms (hfits : Fits path h) (op : Operation) (stamp : String) :
    Conforms path h op ((op.command path).run h.tree stamp) := by
  have ends := Command.ends_run (op.catalogs?_command path) h.tree stamp
  have hedited (hop : op.edits = true) := Operation.edited hop hfits.holds ends
  have hexported {target : String} (hop : op = .exportTo target) :
      Operation.Exported h.tree path h.list target ((op.command path).run h.tree stamp) := by
    subst hop
    exact Operation.exported hfits.holds ends
  constructor
  case load => exact hfits.holds.load
  case load_after => exact (op.holds_run hfits.holds stamp).load
  case isFile => exact fun hfile ↦ op.isFile_run hfits.holds hfile stamp
  case fails =>
    intro hnone
    have hop : op.edits = true := by
      cases op with
      | exportTo => simp [Operation.list?] at hnone
      | _ => rfl
    cases hedited hop with
    | written _ list => simp [hnone] at list
    | refused _ code => exact code
    | impossible _ code => exact code
  case succeeds =>
    intro hop hfile hsome
    cases hedited hop with
    | written _ _ code => exact code
    | refused list => simp [list] at hsome
    | impossible creatable =>
        exact absurd (hfile.elim FileTree.creatable_of_isFile id) creatable
  case edited => exact fun hop ↦ (hedited hop).read
  case exports =>
    intro target hop
    cases hexported hop with
    | written file same creatable code => exact iff_of_true code ⟨file, same, creatable⟩
    | failed hnot code => exact iff_of_false (by simp [code]) hnot
  case exported =>
    intro target hop hcode
    cases hexported hop with
    | written _ _ _ _ read => exact read
    | failed _ code => simp [code] at hcode
  case copied =>
    intro target hop hcode hw
    rw [hfits.read hw]
    cases hexported hop with
    | written _ _ _ _ read => exact read
    | failed _ code => simp [code] at hcode

end Held

/-- **A catalog file is a list.**  Start from a file that is read as a list, or from no file and the
empty list, and run any operations on it, one after the other.  Then the next run does to the file
what its operation does to the list, and it fails if that fails.  The file is read as the list
before and after it, an edit that succeeds leaves the written form of the list, and so does an
export in its target. -/
theorem conforms_runs {t : FileTree} {path : String} {fs : List MessageFormat}
    (start : Begins t path fs) (steps : List (Operation × String)) (op : Operation)
    (stamp : String) :
    let h := Held.nexts path { tree := t, list := fs } steps
    Conforms path h op ((op.command path).run h.tree stamp) :=
  ((Held.fits_of_begins start).nexts steps).conforms op stamp

/-- A file with a comment and odd spellings is edited twice, the first time in vain, and then
exported to a directory that has to be made. -/
theorem conforms_commented_file :
    let bytes := utf8 "# formats in use\r\n0x01, 2 ,Speed,1,c\r\n"
    let t : FileTree := { entries := [(["formats.csv"], .file bytes)] }
    let speed : MessageFormat := ⟨⟨1, 2⟩, "Speed", 1, "c"⟩
    let quoted : MessageFormat := ⟨⟨3, 4⟩, "\"up\"\n#down", 0, ""⟩
    let steps : List (Operation × String) :=
      [(.remove (.site false) 1, ""), (.add .company quoted, "")]
    let h := Held.nexts "formats.csv" { tree := t, list := [speed] } steps
    let copy : Operation := .exportTo "out/copy.csv"
    let o := (copy.command "formats.csv").run h.tree ""
    Begins t "formats.csv" [speed] ∧ Conforms "formats.csv" h copy o ∧
      h.list = [speed, quoted] ∧ h.written = true ∧ o.code = 0 ∧
      o.tree.read "out/copy.csv" = h.tree.read "formats.csv" := by
  intro bytes t speed quoted steps h copy o
  have start : Begins t "formats.csv" [speed] :=
    .file (show t.read "formats.csv" = .ok bytes by decide +kernel) (by decide +kernel)
  have conforms := conforms_runs start steps copy ""
  have hwritten : h.written = true := by decide +kernel
  have hcode : o.code = 0 := by decide +kernel
  exact ⟨start, conforms, by decide +kernel, hwritten, hcode,
    conforms.copied rfl hcode hwritten⟩

end LinkMonitor
