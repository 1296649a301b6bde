import LinkMonitor.Command.Failure
import LinkMonitor.Output.Console

/-! # What comes of a command -/

namespace LinkMonitor

open LinkMonitor.Output

/-- What a run prints, whether it fails, and the files it leaves behind. -/
structure Outcome where
  printed : Transcript := {}
  result : Except Failure Unit := .ok ()
  tree : FileTree

namespace Outcome

def code (o : Outcome) : Nat :=
  match o.result with
  | .ok () => 0
  | .error _ => 2

def out (o : Outcome) : String := text o.printed.out

/-- What is printed as errors, with the failure at the end.  The lines of the log, which are
warnings or serve debugging and tracing and go the same way, are left out. -/
def err (o : Outcome) : String :=
  match o.result with
  | .ok () => text o.printed.err
  | .error f => text (o.printed.err ++ f.lines)

end Outcome

end LinkMonitor
