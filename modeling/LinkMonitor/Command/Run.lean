import LinkMonitor.Command.Arguments
import LinkMonitor.Command.Catalogs
import LinkMonitor.Command.Decoding

/-! # Running commands -/

namespace LinkMonitor

/-- Runs a command on files, at a time that events are stamped with. -/
def Command.run (t : FileTree) (stamp : String) : Command → Outcome
  | .decode input catalogs chunkSize output strict =>
    Decoding.decode t stamp input catalogs chunkSize output strict
  | .send tokens catalogs output => Decoding.send t stamp tokens catalogs output
  | .list catalogs json => Catalogs.list t catalogs json
  | .add file format => Catalogs.add t file format
  | .remove file index => Catalogs.remove t file index
  | .importFrom source path => Catalogs.importFrom t source path
  | .exportTo target path => Catalogs.exportTo t target path

/-- What is seen of a command line that has been run. -/
structure Exit where
  out : String := ""
  err : String := ""
  code : Nat
  tree : FileTree
deriving DecidableEq, Repr

/-- Runs a command line.  Nothing is done if it spells no command: then the exit code is 2, and
there is a text for the error.  Asking for help or for the version, which the program answers with
exit code 0, is left out, as `Command.parse` says. -/
def runLine (t : FileTree) (stamp : String) (args : List String) : Exit :=
  match Command.parse args with
  | .error e => { err := e.message, code := 2, tree := t }
  | .ok c =>
    let o := c.run t stamp
    { out := o.out, err := o.err, code := o.code, tree := o.tree }

end LinkMonitor
