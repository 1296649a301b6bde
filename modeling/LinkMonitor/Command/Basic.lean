import LinkMonitor.Output.Console

/-! # Commands -/

namespace LinkMonitor

/-- The catalogs that a command works with. -/
structure CatalogOptions where
  siteCatalog : Option String := none
  companySources : List String := []
  config : Option String := none
  administrator : Bool := false
deriving DecidableEq, Repr

/-- The paths that are given. -/
def CatalogOptions.paths (o : CatalogOptions) : List String :=
  o.config.toList ++ o.siteCatalog.toList ++ o.companySources

/-- A file that holds one catalog. -/
structure CatalogFile where
  path : String
  catalog : Catalog := .site
  administrator : Bool := false
deriving DecidableEq, Repr

inductive Command where
  /-- Plays back a capture. -/
  | decode (input : String) (catalogs : CatalogOptions) (chunkSize : Option Nat)
      (output : Output.Options) (strict : Bool)
  /-- Decodes bytes that are typed as arguments. -/
  | send (tokens : List String) (catalogs : CatalogOptions) (output : Output.Options)
  /-- Shows both catalogs. -/
  | list (catalogs : CatalogOptions) (json : Bool)
  | add (file : CatalogFile) (format : MessageFormat)
  | remove (file : CatalogFile) (index : Nat)
  /-- Replaces a catalog file by what another file holds. -/
  | importFrom (source path : String)
  /-- Copies a catalog file. -/
  | exportTo (target path : String)
deriving DecidableEq, Repr

namespace Command

/-- The catalogs that a command works with, if it works with both. -/
def catalogs? : Command → Option CatalogOptions
  | .decode _ catalogs _ _ _ | .send _ catalogs _ | .list catalogs _ => some catalogs
  | _ => none

/-- The paths that a command names. -/
def paths : Command → List String
  | .decode input catalogs _ _ _ => input :: catalogs.paths
  | .send _ catalogs _ | .list catalogs _ => catalogs.paths
  | .add file _ | .remove file _ => [file.path]
  | .importFrom path path' | .exportTo path path' => [path, path']

end Command

end LinkMonitor
