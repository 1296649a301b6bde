import LinkMonitor.Output.Json
import LinkMonitor.Registry.Basic

/-! # The console -/

namespace LinkMonitor.Output

/-- How events are printed. -/
structure Options where
  json : Bool := false
  timestamps : Bool := false
  quiet : Bool := false
deriving DecidableEq, Repr

/-- The lines printed as output and those printed as errors. -/
structure Transcript where
  out : List String := []
  err : List String := []
deriving DecidableEq, Repr

namespace Transcript

instance : Append Transcript where
  append a b := ⟨a.out ++ b.out, a.err ++ b.err⟩

@[simp] theorem out_append (a b : Transcript) : (a ++ b).out = a.out ++ b.out := rfl
@[simp] theorem err_append (a b : Transcript) : (a ++ b).err = a.err ++ b.err := rfl

end Transcript

/-- Lines, each with its end. -/
def text (lines : List String) : String :=
  String.join (lines.map (· ++ "\n"))

namespace Options

/-- The line for an event. -/
def line (o : Options) (stamp : String) (e : Event) : String :=
  if o.json then .ofList (eventJson (if o.timestamps then some stamp else none) e).compact
  else if o.timestamps then stamp ++ "\t" ++ e.text
  else e.text

/-- Notes are errors, and are left out if quiet is asked for.  All else is output. -/
def print (o : Options) (stamp : String) (e : Event) : Transcript :=
  if e.isNote then { err := if o.quiet then [] else [e.text] }
  else { out := [o.line stamp e] }

def printAll (o : Options) (stamp : String) (es : List Event) : Transcript where
  out := es.flatMap fun e ↦ (o.print stamp e).out
  err := es.flatMap fun e ↦ (o.print stamp e).err

@[simp] theorem printAll_nil (o : Options) (stamp : String) : o.printAll stamp [] = {} := rfl

end Options

/-- The formats of a catalog, numbered from zero, below its name and their count. -/
def catalogLines (r : Registry) (c : Catalog) : List String :=
  (c.name ++ " (" ++ toString (r.list c).length ++ "):") ::
    (r.list c).mapIdx fun i f ↦ "  [" ++ toString i ++ "] " ++ f.text

def listing (r : Registry) : List String :=
  catalogLines r .site ++ catalogLines r .company

def listingJson (r : Registry) : Json :=
  .object [("company", .array (r.company.map formatJson)),
    ("local", .array (r.site.map formatJson))]

end LinkMonitor.Output
