import LinkMonitor.Files.Error
import LinkMonitor.Files.Path

/-!
# Trees of files

Reading and changing files is a matter of a tree of directories and files, in which paths are
followed part by part.  There are no links in it.
-/

namespace LinkMonitor

/-- A place in a tree: the names that lead to it from the root, the last of them first. -/
abbrev Place := List String

inductive Entry where
  | directory
  | file (contents : List UInt8)
deriving DecidableEq, Repr

/-- A tree of directories and files, and the place in it from which relative paths lead. -/
structure FileTree where
  workDir : Place := []
  entries : List (Place × Entry) := []
deriving DecidableEq, Repr

namespace FileTree

/-- What stands at a place.  The root is a directory. -/
def entryAt? (t : FileTree) : Place → Option Entry
  | [] => some .directory
  | p => (t.entries.find? (·.1 = p)).map (·.2)

def put (t : FileTree) (p : Place) (e : Entry) : FileTree :=
  { t with entries := (p, e) :: t.entries.filter (·.1 ≠ p) }

/-- The place to which one part of a path leads from a place, which must be a directory. -/
def enter (t : FileTree) (p : Place) (part : List Char) : Except FileError Place :=
  match t.entryAt? p with
  | none => .error .notFound
  | some (.file _) => .error .notADirectory
  | some .directory =>
    .ok <| if part = [] ∨ part = ['.'] then p
      else if part = ['.', '.'] then p.tail
      else .ofList part :: p

/-- The place to which parts lead one after the other. -/
def follow (t : FileTree) (p : Place) (parts : List (List Char)) : Except FileError Place :=
  parts.foldlM t.enter p

/-- Where a path starts. -/
def origin (t : FileTree) (path : String) : Place :=
  if Path.isAbsolute path.toList then [] else t.workDir

/-- A path must have a character, and none may be NUL. -/
def checked (path : String) : Except FileError String :=
  if '\x00' ∈ path.toList then .error .nulInPath
  else if path.isEmpty then .error .notFound
  else .ok path

/-- The place that a path names, where there need not be anything. -/
def locate (t : FileTree) (path : String) : Except FileError Place :=
  (checked path).bind fun path ↦ t.follow (t.origin path) (Path.parts path.toList)

/-- What a path names, and where it is. -/
def find (t : FileTree) (path : String) : Except FileError (Place × Entry) :=
  (t.locate path).bind fun p ↦
    match t.entryAt? p with
    | some e => .ok (p, e)
    | none => .error .notFound

def exists? (t : FileTree) (path : String) : Bool :=
  (t.find path).toBool

def isFile (t : FileTree) (path : String) : Bool :=
  match t.find path with
  | .ok (_, .file _) => true
  | _ => false

def isDirectory (t : FileTree) (path : String) : Bool :=
  match t.find path with
  | .ok (_, .directory) => true
  | _ => false

/-- Whether two paths name the same thing. -/
def same (t : FileTree) (path path' : String) : Bool :=
  match t.find path, t.find path' with
  | .ok (p, _), .ok (p', _) => p = p'
  | _, _ => false

/-- The bytes of a file. -/
def read (t : FileTree) (path : String) : Except FileError (List UInt8) :=
  match t.find path with
  | .error e => .error e
  | .ok (_, .directory) => .error .isADirectory
  | .ok (_, .file bytes) => .ok bytes

/-- Where something new with a path comes to stand.  Slashes at the end do not count. -/
def target (t : FileTree) (path : String) : Except FileError Place :=
  (checked path).bind fun path ↦
    t.follow (t.origin path) ((Path.parts path.toList).reverse.dropWhile List.isEmpty).reverse

/-- Gives a file its contents, and makes it if it is not there.  Its directory must be there.  A
path that ends in a slash can only name a directory. -/
def write (t : FileTree) (path : String) (bytes : List UInt8) : Except FileError FileTree :=
  (t.target path).bind fun p ↦
    if t.entryAt? p = some .directory ∨ path.toList.getLast? = some '/' then .error .isADirectory
    else .ok (t.put p (.file bytes))

/-- Makes a directory in one that is there. -/
def makeDirectory (t : FileTree) (path : String) : Except FileError FileTree :=
  (t.target path).bind fun p ↦
    if (t.entryAt? p).isSome then .error .alreadyExists else .ok (t.put p .directory)

/-- Makes the first of some directories, each of which is in the next, and those of the others that
are missing.  Directories that were made stay even if one cannot be made. -/
def makeDirectories (t : FileTree) : List String → FileTree × Except FileError Unit
  | [] => (t, .ok ())
  | path :: above =>
    match t.makeDirectory path with
    | .ok t => (t, .ok ())
    | .error .notFound =>
      match t.makeDirectories above with
      | (t, .error e) => (t, .error e)
      | (t, .ok ()) =>
        match t.makeDirectory path with
        | .ok t => (t, .ok ())
        | .error e => (t, if t.isDirectory path then .ok () else .error e)
    | .error e => (t, if t.isDirectory path then .ok () else .error e)

@[simp] theorem entryAt?_root (t : FileTree) : t.entryAt? [] = some .directory := rfl

theorem entryAt?_put_self (t : FileTree) {p : Place} (e : Entry) (h : p ≠ []) :
    (t.put p e).entryAt? p = some e := by
  cases p with
  | nil => exact absurd rfl h
  | cons n p => simp [entryAt?, put]

theorem entryAt?_put_of_ne (t : FileTree) {p q : Place} (e : Entry) (h : q ≠ p) :
    (t.put p e).entryAt? q = t.entryAt? q := by
  cases q with
  | nil => rfl
  | cons n q =>
    simp only [entryAt?, put, List.find?_cons, decide_eq_false (Ne.symm h), List.find?_filter]
    congr 2
    funext x
    by_cases hx : x.1 = n :: q <;> simp [hx, h]

end FileTree

end LinkMonitor
