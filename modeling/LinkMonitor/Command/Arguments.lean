import LinkMonitor.Command.Basic
import LinkMonitor.Text.Blank

/-!
# Arguments

Arguments are sorted into words, flags and options by the grammar of a command.  There is no
command if they do not fit the grammar, or if a value does not spell what it should.

Asking for help or for the version, with `--help`, `-h`, `--version`, `-V` or `help`, is left out.
The program answers it with a text of its argument parser and exit code 0.  Here it is an argument
like any other, which fits no grammar.
-/

namespace LinkMonitor

open LinkMonitor.Text

/-- The form of an argument. -/
inductive Argument where
  | word
  /-- Two hyphens, after which all arguments are words. -/
  | separator
  /-- A name after two hyphens, and what stands after an equals sign. -/
  | named (name : String) (value : Option String)
  | unknown
deriving DecidableEq, Repr

/-- A hyphen alone is a word.  The only letter that may follow one hyphen stands for the verbose
flag. -/
def Argument.ofString (s : String) : Argument :=
  match s.toList with
  | ['-', '-'] => .separator
  | '-' :: '-' :: cs =>
    match cs.dropWhile (· ≠ '=') with
    | [] => .named (.ofList cs) none
    | _ :: value => .named (.ofList (cs.takeWhile (· ≠ '='))) (some (.ofList value))
  | ['-', 'v'] => .named "verbose" none
  | '-' :: _ :: _ => .unknown
  | _ => .word

/-- What the arguments of a command may be. -/
structure Grammar where
  flags : List String
  /-- The names that have a value. -/
  options : List String
  /-- Those that may have several. -/
  lists : List String := []
  leastWords : Nat := 0
  mostWords : Option Nat := some 0

/-- Arguments by their forms, each in order. -/
structure Arguments where
  words : List String := []
  flags : List String := []
  options : List (String × String) := []

namespace Arguments

/-- Raises a flag that is not raised yet. -/
def raise? (a : Arguments) (name : String) : Option Arguments :=
  if name ∈ a.flags then none else some { a with flags := name :: a.flags }

/-- Gives a value to an option that has none yet, or that may have several. -/
def give? (g : Grammar) (a : Arguments) (name value : String) : Option Arguments :=
  if name ∈ g.lists ∨ ¬ a.options.any (·.1 = name) then
    some { a with options := a.options ++ [(name, value)] }
  else none

/-- Takes up arguments.  The value of an option stands after an equals sign or is the next argument,
which then must be a word. -/
def takeAll? (g : Grammar) (a : Arguments) : List String → Option Arguments
  | [] => some a
  | s :: rest =>
    match Argument.ofString s with
    | .word => takeAll? g { a with words := a.words ++ [s] } rest
    | .separator => some { a with words := a.words ++ rest }
    | .named name none =>
      if name ∈ g.flags then (a.raise? name).bind fun a ↦ takeAll? g a rest
      else if name ∈ g.options then
        match rest with
        | value :: rest =>
          if Argument.ofString value = .word then
            (a.give? g name value).bind fun a ↦ takeAll? g a rest
          else none
        | [] => none
      else none
    | .named name (some value) =>
      if name ∈ g.options then (a.give? g name value).bind fun a ↦ takeAll? g a rest else none
    | .unknown => none

/-- The arguments of a command, if they are as they may be. -/
def read? (g : Grammar) (args : List String) : Option Arguments :=
  (takeAll? g {} args).filter fun a ↦
    g.leastWords ≤ a.words.length && g.mostWords.all (a.words.length ≤ ·)

def raised (a : Arguments) (name : String) : Bool := name ∈ a.flags

/-- The values of an option. -/
def values (a : Arguments) (name : String) : List String :=
  (a.options.filter (·.1 = name)).map (·.2)

variable {α : Type}

/-- What the value of an option spells. -/
def required? (a : Arguments) (name : String) (spelled? : String → Option α) : Option α :=
  (a.values name).head?.bind spelled?

/-- What the value of an option spells, or `none` if the option is not there. -/
def optional? (a : Arguments) (name : String) (spelled? : String → Option α) :
    Option (Option α) :=
  match (a.values name).head? with
  | none => some none
  | some value => (spelled? value).map some

/-- A path has at least one character. -/
def path? (s : String) : Option String := if s.isEmpty then none else some s

/-- A number below 2^64. -/
def size? (s : String) : Option Nat := bounded? 10 UInt64.size s.toList

def catalog? : String → Option Catalog
  | "local" => some .site
  | "company" => some .company
  | _ => none

def catalogOptions? (a : Arguments) : Option CatalogOptions := do
  let siteCatalog ← a.optional? "formats" path?
  let companySources ← (a.values "company").mapM path?
  let config ← a.optional? "config" path?
  return { siteCatalog, companySources, config, administrator := a.raised "admin" }

def outputOptions (a : Arguments) : Output.Options where
  json := a.raised "json"
  timestamps := a.raised "timestamps"
  quiet := a.raised "quiet"

def catalogFile? (a : Arguments) : Option CatalogFile := do
  let path ← a.required? "catalog-file" path?
  let catalog ← a.optional? "catalog" catalog?
  return { path, catalog := catalog.getD .site, administrator := a.raised "admin" }

end Arguments

/-- Why arguments spell no command. -/
inductive UsageError where
  | /-- They do not fit the grammar, or a value does not spell what it should. -/
    misfit
  | /-- The value of an option does not spell a byte. -/
    notAByte (option value : String)
deriving DecidableEq, Repr

namespace UsageError

/-- What is told of arguments that fit no grammar.  The argument parser of the program tells more.
It also has texts for help and for the version, which are left out. -/
def usage : String :=
  "usage: mpac [-v] decode <INPUT> [OPTIONS]\n" ++
  "       mpac [-v] send <BYTES>... [OPTIONS]\n" ++
  "       mpac [-v] formats <list|add|remove|import|export> [OPTIONS]\n"

/-- What is told of an error.  Only what is said of a byte is in the words of the program.  All else
is told by its argument parser there, in other words than here. -/
def message : UsageError → String
  | .misfit => usage
  | .notAByte option value =>
    "error: invalid value '" ++ value ++ "' for '--" ++ option ++ "': " ++
      Text.notAByte value ++ "\n"

/-- What there is of a value that arguments should spell. -/
def unlessMisfit {α : Type} : Option α → Except UsageError α
  | some value => .ok value
  | none => .error .misfit

end UsageError

namespace Arguments

open UsageError

/-- The byte that the value of an option spells. -/
def byte (a : Arguments) (option : String) : Except UsageError UInt8 := do
  let value ← unlessMisfit (a.values option).head?
  match byte? value.toList with
  | some b => return b
  | none => throw (.notAByte option value)

def format (a : Arguments) : Except UsageError MessageFormat := do
  let high ← a.byte "id-high"
  let low ← a.byte "id-low"
  let name ← unlessMisfit (a.required? "name" some)
  let length ← unlessMisfit (a.optional? "length" size?)
  let spec ← unlessMisfit (a.optional? "format" some)
  return { header := ⟨high, low⟩, name, length := .ofNat (length.getD 0), spec := spec.getD "" }

end Arguments

namespace Command

open Arguments UsageError

/-- The name of a command and its arguments.  The verbose flag may stand in front of the name. -/
def named? : List String → Option (String × List String)
  | [] => none
  | s :: args =>
    match Argument.ofString s, args with
    | .word, _ => some (s, args)
    | .named "verbose" none, name :: args =>
      if Argument.ofString name = .word then some (name, args) else none
    | _, _ => none

def listGrammar : Grammar where
  flags := ["verbose", "admin", "json"]
  options := ["formats", "company", "config"]
  lists := ["company"]

def addGrammar : Grammar where
  flags := ["verbose", "admin"]
  options := ["catalog-file", "catalog", "id-high", "id-low", "name", "length", "format"]

def removeGrammar : Grammar where
  flags := ["verbose", "admin"]
  options := ["catalog-file", "catalog", "index"]

def copyGrammar : Grammar where
  flags := ["verbose"]
  options := ["catalog-file"]
  leastWords := 1
  mostWords := some 1

def sendGrammar : Grammar where
  flags := ["verbose", "admin", "json", "timestamps", "quiet"]
  options := ["formats", "company", "config"]
  lists := ["company"]
  leastWords := 1
  mostWords := none

def decodeGrammar : Grammar where
  flags := ["verbose", "admin", "json", "timestamps", "quiet", "strict"]
  options := ["formats", "company", "config", "chunk-size"]
  lists := ["company"]
  leastWords := 1
  mostWords := some 1

/-- The command on catalogs that arguments spell. -/
def parseFormats (args : List String) : Except UsageError Command := do
  match ← unlessMisfit (named? args) with
  | ("list", args) =>
    let a ← unlessMisfit (read? listGrammar args)
    return .list (← unlessMisfit a.catalogOptions?) (a.raised "json")
  | ("add", args) =>
    let a ← unlessMisfit (read? addGrammar args)
    return .add (← unlessMisfit a.catalogFile?) (← a.format)
  | ("remove", args) =>
    let a ← unlessMisfit (read? removeGrammar args)
    return .remove (← unlessMisfit a.catalogFile?) (← unlessMisfit (a.required? "index" size?))
  | ("import", args) =>
    let a ← unlessMisfit (read? copyGrammar args)
    return .importFrom (← unlessMisfit (a.words.head?.bind path?))
      (← unlessMisfit (a.required? "catalog-file" path?))
  | ("export", args) =>
    let a ← unlessMisfit (read? copyGrammar args)
    return .exportTo (← unlessMisfit (a.words.head?.bind path?))
      (← unlessMisfit (a.required? "catalog-file" path?))
  | _ => throw .misfit

/-- The command that arguments spell.  Asking for help or for the version, with `--help`, `-h`,
`--version`, `-V` or `help`, is left out, and is a usage error here. -/
def parse (args : List String) : Except UsageError Command := do
  match ← unlessMisfit (named? args) with
  | ("decode", args) =>
    let a ← unlessMisfit (read? decodeGrammar args)
    return .decode (← unlessMisfit (a.words.head?.bind path?)) (← unlessMisfit a.catalogOptions?)
      (← unlessMisfit (a.optional? "chunk-size" size?)) a.outputOptions (a.raised "strict")
  | ("send", args) =>
    let a ← unlessMisfit (read? sendGrammar args)
    return .send a.words (← unlessMisfit a.catalogOptions?) a.outputOptions
  | ("formats", args) => parseFormats args
  | _ => throw .misfit

/-- The command that arguments spell, or none. -/
def parse? (args : List String) : Option Command := (parse args).toOption

end Command

end LinkMonitor
