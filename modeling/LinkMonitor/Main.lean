import LinkMonitor.Command.Run
import LinkMonitor.Output.Timestamp
import Std.Time.DateTime.Timestamp

/-! # The command line

A run works on a tree of those files that it may need, which are looked at before.  What it changes
in the tree is written back after it. -/

namespace LinkMonitor

/-- The path of a place from the root on. -/
def Place.path (p : Place) : String := "/" ++ "/".intercalate p.reverse

namespace FileTree

/-- The tree with what stands at a place. -/
def look (t : FileTree) (p : Place) : IO FileTree := do
  let file := (← IO.currentDir) / p.path
  if ← file.isDir then return t.put p .directory
  else if ← file.pathExists then
    return t.put p (.file (← IO.FS.readBinFile file).toList)
  else return t

/-- The tree with what stands at a path, and on the way to it. -/
def lookAlong (t : FileTree) (path : String) : IO FileTree := do
  let mut t := t
  let mut p := t.origin path
  for part in Path.parts path.toList do
    match t.enter p part with
    | .error _ => break
    | .ok q =>
      p := q
      t ← t.look p
  return t

/-- The tree with the names of what lies below a place, down to a depth if one is given.  The files
are empty. -/
partial def lookBelow (t : FileTree) (p : Place) (depth : Option Nat) : IO FileTree := do
  if depth = some 0 then return t
  let mut t := t
  for entry in ← ((← IO.currentDir) / p.path).readDir do
    let q := entry.fileName :: p
    if ← entry.path.isDir then
      t ← (t.put q .directory).lookBelow q (depth.map (· - 1))
    else t := t.put q (.file [])
  return t

/-- The tree of the working directory and all directories above it. -/
def start : IO FileTree := do
  let names := (Path.parts (← IO.currentDir).toString.toList).tail.map String.ofList
  let mut t : FileTree := { workDir := names.reverse }
  for n in List.range names.length do
    t := t.put (names.take (n + 1)).reverse .directory
  return t

/-- Looks for what a pattern can match: all below the directory that it names in front of its first
wildcard, as deep as it goes. -/
def lookPattern (t : FileTree) (pattern : String) : IO FileTree := do
  let parts := Path.parts pattern.toList
  let plain := parts.takeWhile fun part ↦ !Glob.isPattern (.ofList part)
  let directory := String.ofList (Path.unparts plain)
  let t ← t.lookAlong directory
  let depth := if ['*', '*'] ∈ parts then none else some (parts.length - plain.length)
  match t.follow (t.origin pattern) plain with
  | .error _ => return t
  | .ok p =>
    let t ← t.lookBelow p depth
    match Setup.resolve t pattern with
    | .error _ => return t
    | .ok path =>
      match t.locate path with
      | .error _ => return t
      | .ok q => t.look q

/-- Looks for what a command may need. -/
def lookFor (t : FileTree) (c : Command) : IO FileTree := do
  let mut t := t
  if let .decode input _ _ _ _ := c then
    if Glob.isPattern input then t ← t.lookPattern input
  for path in c.paths do
    t ← t.lookAlong path
  if let some catalogs := c.catalogs? then
    if let .ok s := Setup.settings t catalogs none then
      for path in s.siteCatalog.toList ++ s.companySources do
        t ← t.lookAlong path
  return t

/-- Writes what is new or changed since an earlier tree, the directories first. -/
def writeBack (before after : FileTree) : IO Unit := do
  let changed := after.entries.filter fun (p, e) ↦ before.entryAt? p ≠ some e
  let (directories, files) := changed.partition fun (_, e) ↦ e = .directory
  for (p, _) in directories.mergeSort fun a b ↦ a.1.length ≤ b.1.length do
    IO.FS.createDir p.path
  for (p, e) in files do
    if let .file bytes := e then IO.FS.writeBinFile p.path ⟨bytes.toArray⟩

end FileTree

/-- The time in nanoseconds since the start of 1970. -/
def now : IO Nat := do
  return (← Std.Time.Timestamp.now).toNanosecondsSinceUnixEpoch.val.toNat

end LinkMonitor

open LinkMonitor in
def main (args : List String) : IO UInt32 := do
  let mut t ← FileTree.start
  if let some c := Command.parse? args then t ← t.lookFor c
  let exit := runLine t (Output.timestamp (← now)) args
  FileTree.writeBack t exit.tree
  IO.print exit.out
  IO.eprint exit.err
  return .ofNat exit.code
