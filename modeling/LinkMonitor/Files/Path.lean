/-!
# Paths

A path is a text of parts between slashes.  What stands above it and below it is told from the text
alone.
-/

namespace LinkMonitor.Path

/-- The parts of a path between slashes. -/
def parts (path : List Char) : List (List Char) :=
  path.splitOn '/'

def unparts (ps : List (List Char)) : List Char :=
  ['/'].intercalate ps

def isAbsolute : List Char → Bool
  | '/' :: _ => true
  | _ => false

/-- Parts, the last of them first, without those at the end that name nothing.  A point names the
place where a path starts if it stands at its front. -/
def significant (absolute : Bool) : List (List Char) → List (List Char)
  | [] => []
  | p :: ps =>
    if p = [] ∨ (p = ['.'] ∧ (absolute ∨ ps ≠ [])) then significant absolute ps else p :: ps

/-- The path of the directory that holds what a path names, if the path says so. -/
def parent? (path : String) : Option String :=
  let cs := path.toList
  let absolute := isAbsolute cs
  let ps := if absolute then (parts cs).tail else parts cs
  match significant absolute ps.reverse with
  | [] => none
  | _ :: rest =>
    let above := unparts (significant absolute rest).reverse
    some (.ofList (if absolute then '/' :: above else above))

theorem length_significant_le (absolute : Bool) (ps : List (List Char)) :
    (significant absolute ps).length ≤ ps.length := by
  induction ps with
  | nil => exact Nat.le_refl 0
  | cons p ps ih =>
    rw [significant]
    split
    · exact Nat.le_succ_of_le ih
    · exact Nat.le_refl _

/-- The paths of which each leads to the directory of the one before it, from parts, the last of
them first. -/
def upward (absolute : Bool) (ps : List (List Char)) : List String :=
  match _ : significant absolute ps with
  | [] => []
  | p :: rest =>
    let path := unparts (p :: rest).reverse
    .ofList (if absolute then '/' :: path else path) :: upward absolute rest
termination_by ps.length
decreasing_by
  rename_i h
  have := length_significant_le absolute ps
  simp only [h, List.length_cons] at this
  omega

/-- The directories above what a path names, as far as the path says so, the nearest first. -/
def above (path : String) : List String :=
  let cs := path.toList
  if isAbsolute cs then (upward true (parts cs).tail.reverse).tail
  else (upward false (parts cs).reverse).tail

/-- A path seen from a directory.  An absolute path stays as it is. -/
def join (dir path : String) : String :=
  if isAbsolute path.toList ∨ dir = "" then path
  else if dir.toList.getLast? = some '/' then dir ++ path
  else dir ++ "/" ++ path

end LinkMonitor.Path
