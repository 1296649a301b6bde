import LinkMonitor.Format

/-!
# The registry of formats

A registry holds two lists of formats.  The format of a header is the first in both lists together
(`format?_eq_find?`); the list of the company can be changed by an administrator only.
-/

namespace LinkMonitor

/-- The two catalogs: that of the site, called local, and that of the company. -/
inductive Catalog where
  | site
  | company
deriving DecidableEq, Repr

def Catalog.name : Catalog → String
  | .site => "local"
  | .company => "company"

/-- A privilege that a change of the registry lacks. -/
inductive RegistryError where
  | administratorRequired (catalog : Catalog)
deriving DecidableEq, Repr

def RegistryError.message : RegistryError → String
  | .administratorRequired catalog => catalog.name ++ " catalog requires administrator privilege"

/-- How an entry of a catalog is picked. -/
inductive Selector where
  /-- By its place. -/
  | index (i : Nat)
  /-- As the first that equals a format. -/
  | entry (format : MessageFormat)
deriving DecidableEq, Repr

structure Registry where
  site : List MessageFormat := []
  company : List MessageFormat := []
  administrator : Bool := false
deriving DecidableEq, Repr

namespace Registry

def list (r : Registry) : Catalog → List MessageFormat
  | .site => r.site
  | .company => r.company

/-- All formats in the order in which they are searched. -/
def formats (r : Registry) : List MessageFormat := r.site ++ r.company

def replace (r : Registry) (formats : List MessageFormat) : Catalog → Registry
  | .site => { r with site := formats }
  | .company => { r with company := formats }

/-- Entries of the company catalog are changed by an administrator only. -/
def permits (r : Registry) : Catalog → Bool
  | .site => true
  | .company => r.administrator

/-- Appends a format to a catalog that may be changed. -/
def add (r : Registry) (f : MessageFormat) (c : Catalog) : Registry × Except RegistryError Unit :=
  if r.permits c then (r.replace (r.list c ++ [f]) c, .ok ())
  else (r, .error (.administratorRequired c))

/-- The place of the entry that a selector picks in a catalog. -/
def place? (entries : List MessageFormat) : Selector → Option Nat
  | .index i => if i < entries.length then some i else none
  | .entry f => entries.findIdx? (· = f)

/-- Removes an entry from a catalog that may be changed, and says whether there was one. -/
def remove (r : Registry) (s : Selector) (c : Catalog) : Registry × Bool :=
  if r.permits c then
    match place? (r.list c) s with
    | some i => (r.replace ((r.list c).eraseIdx i) c, true)
    | none => (r, false)
  else (r, false)

/-- The first format with a header in a catalog. -/
def find? (r : Registry) (h : Header) (c : Catalog) : Option (MessageFormat × Catalog) :=
  ((r.list c).find? (·.header = h)).map (·, c)

/-- The first format with a header, and the catalog that holds it.  That of the site comes first. -/
def lookup (r : Registry) (h : Header) : Option (MessageFormat × Catalog) :=
  (r.find? h .site).or (r.find? h .company)

/-- The format that the frames with a header have. -/
def format? (r : Registry) (h : Header) : Option MessageFormat :=
  (r.lookup h).map (·.1)

/-- Whether some header begins with a byte. -/
def startsHeader (r : Registry) (b : UInt8) : Bool :=
  r.formats.any (·.header.high = b)

variable {r : Registry} {c : Catalog}

@[simp] theorem list_replace_self (fs : List MessageFormat) :
    (r.replace fs c).list c = fs := by
  cases c <;> rfl

@[simp] theorem administrator_replace (fs : List MessageFormat) :
    (r.replace fs c).administrator = r.administrator := by
  cases c <;> rfl

theorem add_of_permits (h : r.permits c = true) (f : MessageFormat) :
    r.add f c = (r.replace (r.list c ++ [f]) c, .ok ()) := if_pos h

theorem add_of_not_permits (h : r.permits c = false) (f : MessageFormat) :
    r.add f c = (r, .error (.administratorRequired c)) := by
  simp [add, h]

theorem remove_of_place?_eq_some {s : Selector} {i : Nat} (h : r.permits c = true)
    (hi : place? (r.list c) s = some i) :
    r.remove s c = (r.replace ((r.list c).eraseIdx i) c, true) := by
  simp [remove, h, hi]

theorem remove_eq_false {s : Selector} (h : r.permits c = false ∨ place? (r.list c) s = none) :
    r.remove s c = (r, false) := by
  rcases h with h | h <;> simp [remove, h]

/-- The format of a header is the first in both catalogs together. -/
theorem format?_eq_find? (h : Header) : r.format? h = r.formats.find? (·.header = h) := by
  simp only [format?, lookup, find?, formats, list, List.find?_append]
  cases r.site.find? (·.header = h) <;> cases r.company.find? (·.header = h) <;> rfl

theorem startsHeader_iff {b : UInt8} :
    r.startsHeader b = true ↔ ∃ l, (r.format? ⟨b, l⟩).isSome = true := by
  simp only [startsHeader, format?_eq_find?, List.any_eq_true, List.find?_isSome,
    decide_eq_true_eq]
  constructor
  · rintro ⟨f, hf, rfl⟩
    exact ⟨f.header.low, f, hf, rfl⟩
  · rintro ⟨l, f, hf, h⟩
    exact ⟨f, hf, by rw [h]⟩

end Registry

end LinkMonitor
