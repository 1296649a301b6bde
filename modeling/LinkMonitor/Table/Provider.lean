import LinkMonitor.Registry.Refresh
import LinkMonitor.Table.Error

/-! # Catalog files as providers -/

namespace LinkMonitor.Provider

/-- The provider of a catalog file with a name, from what reading the file gives. -/
def ofTable (name : String) (formats : Except TableError (List MessageFormat)) : Provider where
  name := name
  fetched := formats.mapError fun e ↦ .provider name e.message

end LinkMonitor.Provider
