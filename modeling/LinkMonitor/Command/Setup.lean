import LinkMonitor.Command.Basic
import LinkMonitor.Command.Failure
import LinkMonitor.Table.Provider

/-! # What commands read before they do their work -/

namespace LinkMonitor.Setup

/-- Fails unless a path names a file. -/
def requireFile (t : FileTree) (path : String) : Except Failure Unit :=
  if !t.exists? path then .error (.notFound path)
  else if !t.isFile path then .error (.notAFile path)
  else .ok ()

/-- The path of the only file that a pattern matches.  Other texts are paths themselves. -/
def resolve (t : FileTree) (input : String) : Except Failure String :=
  if Glob.isPattern input then
    match Glob.expand t input with
    | .error e => .error (.invalidPattern input e)
    | .ok paths =>
      match paths.filter (t.isFile ·) with
      | [] => .error (.noMatch input)
      | [path] => .ok path
      | paths => .error (.manyMatches input paths)
  else .ok input

def settings (t : FileTree) (o : CatalogOptions) (chunkSize : Option Nat) :
    Except Failure Settings := do
  let config ← match o.config with
    | none => pure {}
    | some path =>
      requireFile t path
      (Config.load t path).mapError (.config path)
  return .merge config o.administrator o.siteCatalog o.companySources chunkSize

/-- A registry with the catalog of the site, and a note on it. -/
def siteRegistry (t : FileTree) (s : Settings) : Except Failure (List Event × Registry) :=
  let r : Registry := { administrator := s.administrator }
  match s.siteCatalog with
  | none => .ok ([], r)
  | some path => do
    requireFile t path
    let fs ← (Table.load t path).mapError (.siteCatalog path)
    return ([.note ("local catalog: " ++ toString fs.length ++ " formats from " ++ path)],
      r.replace fs .site)

/-- A registry with the catalogs that settings name, and notes on them. -/
def registry (t : FileTree) (s : Settings) : List Event × Except Failure Registry :=
  match siteRegistry t s with
  | .error e => ([], .error e)
  | .ok (notes, r) =>
    if s.companySources.isEmpty then (notes, .ok r)
    else
      let (r, events, result) :=
        r.refresh (s.companySources.map fun path ↦ .ofTable path (Table.load t path))
      (notes ++ events, (result.mapError .companySources).map fun _ ↦ r)

end LinkMonitor.Setup
