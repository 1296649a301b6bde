import LinkMonitor.Files.Glob
import LinkMonitor.Monitor
import LinkMonitor.Settings.Storage
import LinkMonitor.Table.Storage

/-! # Why a command fails -/

namespace LinkMonitor

inductive Failure where
  | notFound (path : String)
  | notAFile (path : String)
  | invalidPattern (pattern : String) (error : Glob.PatternError)
  | noMatch (pattern : String)
  | manyMatches (pattern : String) (paths : List String)
  | config (path : String) (error : ConfigError)
  | chunkSize
  | siteCatalog (path : String) (error : TableError)
  | companySources (error : ProvisionError)
  | capture (path : String) (error : SourceError)
  /-- The capture holds bytes that belong to no frame, or frames of a wrong length. -/
  | unrecognizedInput
  | manualInput (error : HexInputError)
  | catalogFile (path : String) (error : TableError)
  | privilege (error : RegistryError)
  | noEntry (index : Nat) (path : String)
  | importSource (path : String) (error : TableError)
  /-- A catalog file is not replaced by itself. -/
  | importsItself (source : String)
  | exportsItself (target : String)
  | newDirectory (path : String) (error : FileError)
  | newCatalog (path : String) (error : TableError)
deriving DecidableEq, Repr

namespace Failure

def message : Failure → String
  | .notFound path => "input file not found: " ++ path
  | .notAFile path => "input is not a file: " ++ path
  | .invalidPattern pattern _ => "invalid input pattern '" ++ pattern ++ "'"
  | .noMatch pattern => "no files match pattern '" ++ pattern ++ "'"
  | .manyMatches pattern paths =>
    "multiple files match pattern '" ++ pattern ++ "' (" ++ toString paths.length ++
      " matches); matches: " ++ ", ".intercalate (paths.take 3) ++
      (if 3 < paths.length then ", ..." else "")
  | .config path e => "Failed to read config: " ++ path ++ ": " ++ e.message
  | .chunkSize => "chunk size must be at least 1"
  | .siteCatalog path e => "Failed to load local catalog: " ++ path ++ ": " ++ e.report
  | .companySources e => "Company catalog refresh failed: " ++ e.message
  | .capture path e => "Failed to read capture: " ++ path ++ ": " ++ e.message
  | .unrecognizedInput => "unrecognized input detected"
  | .manualInput e => "invalid manual input: " ++ e.message
  | .catalogFile path e => "Failed to read catalog: " ++ path ++ ": " ++ e.report
  | .privilege e => e.message
  | .noEntry index path => "no format at index " ++ toString index ++ " in " ++ path
  | .importSource path e => "Failed to import catalog: " ++ path ++ ": " ++ e.report
  | .importsItself source => "import source must differ from the catalog: " ++ source
  | .exportsItself target => "export path must differ from the catalog: " ++ target
  | .newDirectory path e => "Failed to create output directory: " ++ path ++ ": " ++ e.message
  | .newCatalog path e => "Failed to write catalog: " ++ path ++ ": " ++ e.report

/-- What may help. -/
def hint? : Failure → Option String
  | .notFound _ => "check the path"
  | .notAFile _ => "pass a regular file"
  | .invalidPattern _ e => "pattern error: " ++ e.message
  | .noMatch _ => "check the path or quote the pattern"
  | .manyMatches _ _ => "pass a single capture file, or run once per file"
  | .chunkSize => "pass --chunk-size with a positive value"
  | .unrecognizedInput => "check the catalog files or run without --strict"
  | .manualInput _ => "enter space-separated hex bytes, e.g. 01 02 05 00"
  | .privilege _ => "pass --admin or set `administrator = true` in the config file"
  | .noEntry _ _ => "use `mpac formats list` to see indices"
  | .importsItself _ => "choose a different catalog file"
  | .exportsItself _ => "choose a different output path"
  | _ => none

/-- The lines that tell of a failure. -/
def lines (f : Failure) : List String :=
  ("error: " ++ f.message) :: (f.hint?.map ("hint: " ++ ·)).toList

end Failure

end LinkMonitor
