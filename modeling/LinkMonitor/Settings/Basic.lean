import LinkMonitor.Files.Path
import LinkMonitor.Settings.Document

/-! # Settings -/

namespace LinkMonitor

/-- What a configuration file says. -/
structure Config where
  administrator : Bool := false
  siteCatalog : Option String := none
  companySources : List String := []
  chunkSize : Option Nat := none
deriving DecidableEq, Repr

namespace Config

open Document

/-- Takes over one entry, if it is a setting with a value of the right kind. -/
def set? (c : Config) : String × Value → Option Config
  | ("administrator", .boolean b) => some { c with administrator := b }
  | ("local_catalog", .text path) => some { c with siteCatalog := some path }
  | ("company_sources", .texts paths) => some { c with companySources := paths }
  | ("chunk_size", .integer n) =>
    if 0 ≤ n then some { c with chunkSize := some n.toNat } else none
  | _ => none

/-- The configuration that a text describes. -/
def parse? (text : String) : Option Config :=
  (Document.parse? text).bind fun entries ↦ entries.foldlM set? {}

/-- The paths of a configuration, seen from the directory that holds its file. -/
def rebase (c : Config) (path : String) : Config :=
  match Path.parent? path with
  | none => c
  | some dir =>
    { c with
      siteCatalog := c.siteCatalog.map (Path.join dir)
      companySources := c.companySources.map (Path.join dir) }

end Config

/-- The settings in force. -/
structure Settings where
  administrator : Bool
  siteCatalog : Option String
  companySources : List String
  chunkSize : Nat
deriving DecidableEq, Repr

namespace Settings

def defaultChunkSize : Nat := 64

/-- Settings given with a command go before those of a configuration.  Sources of the company given
with a command replace all that are configured. -/
def merge (config : Config) (administrator : Bool) (siteCatalog : Option String)
    (companySources : List String) (chunkSize : Option Nat) : Settings where
  administrator := administrator || config.administrator
  siteCatalog := siteCatalog.or config.siteCatalog
  companySources := if companySources.isEmpty then config.companySources else companySources
  chunkSize := (chunkSize.or config.chunkSize).getD defaultChunkSize

end Settings

end LinkMonitor
