import LinkMonitor.Command.Outcome
import LinkMonitor.Command.Setup

/-!
# Showing and changing catalogs

A catalog file is written only after all that it depends on has been read and checked.
-/

namespace LinkMonitor.Catalogs

open LinkMonitor.Output LinkMonitor.Setup

/-- Shows both catalogs. -/
def list (t : FileTree) (catalogs : CatalogOptions) (json : Bool) : Outcome :=
  match (settings t catalogs none).bind fun s ↦ (registry t s).2 with
  | .error e => { result := .error e, tree := t }
  | .ok r =>
    { printed := { out := if json then [.ofList ((listingJson r).pretty 0)] else listing r },
      tree := t }

/-- A registry with the catalog that a file holds.  A file that is not there holds an empty one. -/
def loadFile (t : FileTree) (file : CatalogFile) : Except Failure Registry :=
  let r : Registry := { administrator := file.administrator }
  if t.exists? file.path then
    ((Table.load t file.path).map (r.replace · file.catalog)).mapError (.catalogFile file.path)
  else .ok r

/-- Puts formats into a catalog file, for which directories are made as needed, and prints a
line. -/
def store (t : FileTree) (path : String) (fs : List MessageFormat) (line : String) : Outcome :=
  match t.makeDirectories (Path.above path) with
  | (t, .error e) => { result := .error (.newDirectory ((Path.parent? path).getD "") e), tree := t }
  | (t, .ok ()) =>
    match Table.save t path fs with
    | .error e => { result := .error (.newCatalog path e), tree := t }
    | .ok t => { printed := { err := [line] }, tree := t }

def stored (path : String) (count : Nat) : String :=
  " -> " ++ path ++ " (" ++ toString count ++ " formats)"

/-- Appends a format to a catalog file. -/
def add (t : FileTree) (file : CatalogFile) (f : MessageFormat) : Outcome :=
  match loadFile t file with
  | .error e => { result := .error e, tree := t }
  | .ok r =>
    match r.add f file.catalog with
    | (_, .error e) => { result := .error (.privilege e), tree := t }
    | (r, .ok ()) =>
      let fs := r.list file.catalog
      store t file.path fs ("OK: added '" ++ f.name ++ "'" ++ stored file.path fs.length)

/-- Removes the format at a place in a catalog file. -/
def remove (t : FileTree) (file : CatalogFile) (index : Nat) : Outcome :=
  match loadFile t file with
  | .error e => { result := .error e, tree := t }
  | .ok r =>
    match r.remove (.index index) file.catalog with
    | (r, false) =>
      let failure : Failure :=
        if r.permits file.catalog then .noEntry index file.path
        else .privilege (.administratorRequired file.catalog)
      { result := .error failure, tree := t }
    | (r, true) =>
      let fs := r.list file.catalog
      store t file.path fs ("OK: removed index " ++ toString index ++ stored file.path fs.length)

/-- Replaces a catalog file by what another file holds. -/
def importFrom (t : FileTree) (source path : String) : Outcome :=
  let loaded := do
    requireFile t source
    if t.same source path then .error (.importsItself source)
    else (Table.load t source).mapError (.importSource source)
  match loaded with
  | .error e => { result := .error e, tree := t }
  | .ok fs =>
    store t path fs ("OK: imported " ++ toString fs.length ++ " formats -> " ++ path)

/-- Writes what a catalog file holds to another file. -/
def exportTo (t : FileTree) (target path : String) : Outcome :=
  let loaded := do
    requireFile t path
    if t.same path target then .error (.exportsItself target)
    else (Table.load t path).mapError (.catalogFile path)
  match loaded with
  | .error e => { result := .error e, tree := t }
  | .ok fs =>
    store t target fs ("OK: exported " ++ toString fs.length ++ " formats -> " ++ target)

end LinkMonitor.Catalogs
