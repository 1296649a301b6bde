import LinkMonitor.Files.Tree
import LinkMonitor.Settings.Basic
import LinkMonitor.Text.Utf8

/-! # Configuration files in a tree -/

namespace LinkMonitor

open LinkMonitor.Text

/-- Why there is no configuration in a file. -/
inductive ConfigError where
  | io (cause : FileError)
  /-- The text describes no configuration. -/
  | malformed
deriving DecidableEq, Repr

def ConfigError.message : ConfigError → String
  | .io e => e.message
  | .malformed => "TOML parse error"

/-- The configuration in a file.  Its paths start at the directory that holds the file. -/
def Config.load (t : FileTree) (path : String) : Except ConfigError Config :=
  match t.read path with
  | .error e => .error (.io e)
  | .ok bytes =>
    match ofUtf8 bytes with
    | .error _ => .error (.io .notText)
    | .ok text =>
      match parse? text with
      | some c => .ok (c.rebase path)
      | none => .error .malformed

end LinkMonitor
