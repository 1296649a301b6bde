import LinkMonitor.Files.Tree
import LinkMonitor.Table.Writing

/-! # Catalog files in a tree -/

namespace LinkMonitor.Table

open LinkMonitor.Text

/-- The formats in a catalog file.  A directory can be opened too, but its bytes cannot be read. -/
def load (t : FileTree) (path : String) : Except TableError (List MessageFormat) :=
  match t.read path with
  | .ok bytes => read bytes
  | .error .isADirectory => .error (.unreadable .isADirectory)
  | .error e => .error (.io e)

/-- Puts formats into a catalog file. -/
def save (t : FileTree) (path : String) (fs : List MessageFormat) : Except TableError FileTree :=
  (t.write path (utf8 (write fs))).mapError .io

end LinkMonitor.Table
