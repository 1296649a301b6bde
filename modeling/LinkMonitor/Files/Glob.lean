import LinkMonitor.Files.Tree

/-!
# Patterns of paths

A pattern is cut at its slashes, and each part leads from a place of a tree to those below it
whose names match.
-/

namespace LinkMonitor.Glob

/-- Whether a text is a pattern. -/
def isPattern (s : String) : Bool :=
  s.toList.any fun c ↦ c == '*' || c == '?' || c == '['

/-- What is wrong with a pattern. -/
inductive PatternError where
  | wildcards
  | recursiveWildcards
  | range
deriving DecidableEq, Repr

def PatternError.message : PatternError → String
  | .wildcards => "wildcards are either regular `*` or recursive `**`"
  | .recursiveWildcards => "recursive wildcards must form a single path component"
  | .range => "invalid range pattern"

/-- The characters from one to another. -/
structure CharRange where
  first : Char
  last : Char
deriving DecidableEq, Repr

def CharRange.contains (r : CharRange) (c : Char) : Bool := r.first ≤ c && c ≤ r.last

inductive Token where
  | char (c : Char)
  | anyChar
  | anySequence
  /-- Any number of directories. -/
  | anyDepth
  | within (ranges : List CharRange)
  | except (ranges : List CharRange)
deriving DecidableEq, Repr

/-- The ranges between brackets. -/
def ranges : List Char → List CharRange
  | a :: '-' :: b :: cs => ⟨a, b⟩ :: ranges cs
  | c :: cs => ⟨c, c⟩ :: ranges cs
  | [] => []

/-- The characters up to a closing bracket, and what follows it. -/
def toBracket? : List Char → Option (List Char × List Char)
  | [] => none
  | ']' :: cs => some ([], cs)
  | c :: cs => (toBracket? cs).map fun (inside, rest) ↦ (c :: inside, rest)

theorem length_of_toBracket? {cs inside rest : List Char}
    (h : toBracket? cs = some (inside, rest)) : rest.length < cs.length := by
  fun_induction toBracket? cs generalizing inside with
  | case1 => cases h
  | case2 cs => simp_all
  | case3 c cs _ ih =>
    obtain ⟨⟨i, r⟩, hr, he⟩ := Option.map_eq_some_iff.1 h
    cases he
    have := ih hr
    simp only [List.length_cons]
    omega

/-- A class of characters behind its opening bracket: at least one character, the first of which may
be a closing bracket, up to a closing bracket.  An exclamation mark in front inverts it. -/
def class? (s : List Char) : Option (Token × List Char) :=
  match s with
  | '!' :: c :: cs =>
    (toBracket? cs).map fun (inside, rest) ↦ (.except (ranges (c :: inside)), rest)
  | ['!'] => none
  | c :: cs => (toBracket? cs).map fun (inside, rest) ↦ (.within (ranges (c :: inside)), rest)
  | [] => none

theorem length_of_class? {s : List Char} {t : Token} {rest : List Char}
    (h : class? s = some (t, rest)) : rest.length < s.length := by
  unfold class? at h
  split at h
  · obtain ⟨⟨i, r⟩, hr, he⟩ := Option.map_eq_some_iff.1 h
    cases he
    have := length_of_toBracket? hr
    simp only [List.length_cons]
    omega
  · cases h
  · obtain ⟨⟨i, r⟩, hr, he⟩ := Option.map_eq_some_iff.1 h
    cases he
    have := length_of_toBracket? hr
    simp only [List.length_cons]
    omega
  · cases h

/-- The tokens of a pattern, or of the rest of one: `opening` tells whether a part of the path
begins here. -/
def tokens (opening : Bool) : List Char → Except PatternError (List Token)
  | [] => .ok []
  | '?' :: cs => (tokens false cs).map (.anyChar :: ·)
  | '*' :: '*' :: '*' :: _ => .error .wildcards
  | ['*', '*'] => if opening then .ok [.anyDepth] else .error .recursiveWildcards
  | '*' :: '*' :: '/' :: cs =>
    if opening then (tokens true cs).map (.anyDepth :: ·) else .error .recursiveWildcards
  | '*' :: '*' :: _ => .error .recursiveWildcards
  | '*' :: cs => (tokens false cs).map (.anySequence :: ·)
  | '[' :: cs =>
    match _ : class? cs with
    | some (t, rest) => (tokens false rest).map (t :: ·)
    | none => .error .range
  | c :: cs => (tokens (c == '/') cs).map (.char c :: ·)
termination_by cs => cs.length
decreasing_by
  all_goals simp only [List.length_cons]
  all_goals first
    | omega
    | have := length_of_class? ‹_›; omega

/-- Whether tokens match the whole of a name. -/
def matchName : List Token → List Char → Bool
  | [], cs => cs.isEmpty
  | .anySequence :: ts, cs | .anyDepth :: ts, cs =>
    (List.range (cs.length + 1)).any fun n ↦ matchName ts (cs.drop n)
  | .char c :: ts, x :: cs => x == c && matchName ts cs
  | .anyChar :: ts, _ :: cs => matchName ts cs
  | .within rs :: ts, x :: cs => rs.any (·.contains x) && matchName ts cs
  | .except rs :: ts, x :: cs => !rs.any (·.contains x) && matchName ts cs
  | _ :: _, [] => false

/-- A part of a pattern. -/
inductive Component where
  /-- A name without wildcards. -/
  | name (name : List Char)
  | wild (tokens : List Token)
  /-- Any number of directories. -/
  | depth
deriving DecidableEq, Repr

def Token.char? : Token → Option Char
  | .char c => some c
  | _ => none

def component (part : List Char) : Except PatternError Component :=
  (tokens true part).map fun ts ↦
    if part = ['*', '*'] then .depth
    else match ts.mapM Token.char? with
      | some name => .name name
      | none => .wild ts

/-- A place that the search has come to, and its path. -/
structure Spot where
  path : String
  place : Place
deriving DecidableEq, Repr

namespace Spot

/-- Whether the path names the working directory by points alone. -/
def isHere (s : Spot) : Bool :=
  Path.significant false (Path.parts s.path.toList).reverse == [['.']]

def child (s : Spot) (name : String) : Spot :=
  ⟨if s.isHere then name else Path.join s.path name, name :: s.place⟩

/-- The last name of the place. -/
def name (s : Spot) : List Char := (s.place.head?.getD "").toList

end Spot

variable (t : FileTree)

/-- The names that lead from a place to all that is below it, in order. -/
def namesBelow (p : Place) : List (List String) :=
  let below := t.entries.filterMap fun (q, _) ↦
    if p.isSuffixOf q && p ≠ q then some (q.take (q.length - p.length)).reverse else none
  below.mergeSort fun a b ↦ (compare a b).isLE

def children (s : Spot) : List Spot :=
  (namesBelow t s.place).filterMap fun
    | [n] => some (s.child n)
    | _ => none

/-- All below a spot, each directory in front of what it holds. -/
def descendants (s : Spot) : List Spot :=
  (namesBelow t s.place).map fun ns ↦ ns.foldl Spot.child s

def isDirectory (s : Spot) : Bool := t.entryAt? s.place = some .directory

/-- The spot that a name leads to, if there is one. -/
def step? (s : Spot) (name : List Char) : Option Spot :=
  let path := if s.isHere then .ofList name else Path.join s.path (.ofList name)
  match t.find path with
  | .ok (place, _) => some ⟨path, place⟩
  | .error _ => none

/-- The entries that each directory has for itself and for the one above it; only a pattern that
begins with a point matches them. -/
def points (ts : List Token) : List (List Char) :=
  if ts.head? = some (.char '.') then [['.', '.'], ['.']].filter (matchName ts) else []

mutual

/-- The spots to which components lead from a spot. -/
def search : List Component → Spot → List Spot
  | [], s => [s]
  | .name n :: cs, s => ((step? t s n).map (search cs)).getD []
  | .wild ts :: cs, s =>
    if isDirectory t s then
      (points ts).flatMap (fun n ↦ ((t.find (Path.join s.path (.ofList n))).toOption.map
        fun (place, _) ↦ search cs ⟨Path.join s.path (.ofList n), place⟩).getD []) ++
      (children t s).flatMap fun c ↦ if matchName ts c.name then search cs c else []
    else []
  | .depth :: cs, s => (descendants t s).flatMap (visit cs)

/-- The spots to which components lead when the first of them is to match the name of the spot. -/
def visit : List Component → Spot → List Spot
  | [], s => if isDirectory t s then [s] else []
  | .depth :: cs, s => visit cs s
  | .name n :: cs, s => if s.name = n then search cs s else []
  | .wild ts :: cs, s => if matchName ts s.name then search cs s else []

end

/-- The parts of a pattern without an empty one at the end. -/
def components (pattern : List Char) : Except PatternError (List Component) :=
  let parts := Path.parts pattern
  (if parts.getLast? = some [] then parts.dropLast else parts).mapM component

/-- The paths that match a pattern, in order.  A pattern that ends in a slash matches directories
only. -/
def expand (pattern : String) : Except PatternError (List String) := do
  let cs := pattern.toList
  let _ ← tokens true cs
  let found ← if Path.isAbsolute cs then
      (components cs.tail).map fun parts ↦ search t parts ⟨"/", []⟩
    else (components cs).map fun parts ↦ search t parts ⟨".", t.workDir⟩
  let found := if cs.getLast? = some '/' then found.filter (isDirectory t) else found
  return found.map (·.path)

end LinkMonitor.Glob
