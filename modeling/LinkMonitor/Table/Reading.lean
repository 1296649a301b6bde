import LinkMonitor.Format
import LinkMonitor.Table.Error
import LinkMonitor.Text.Blank
import LinkMonitor.Text.Utf8

/-!
# Reading catalogs

Each record is a format, except for names of columns in the first.
-/

namespace LinkMonitor.Table

open LinkMonitor.Text

/-- The texts of a record, which is at a position. -/
def textsFrom (p : Position) : Nat → List (List UInt8) → Except TableError (List String)
  | _, [] => .ok []
  | i, f :: fs =>
    match ofUtf8 f with
    | .ok s => (textsFrom p (i + 1) fs).map (s :: ·)
    | .error byte => .error (.notText p i byte)

def Record.texts (r : Record) : Except TableError (List String) :=
  textsFrom r.position 0 r.fields

/-- A row of column names begins, blanks and case aside, with the name of the first column. -/
def isHeading (row : List String) : Bool :=
  match row with
  | [] => false
  | field :: _ =>
    (trim isBlank field.toList).map Char.toLower == ['i', 'd', '_', 'h', 'i', 'g', 'h']

/-- The value that a column holds between blanks. -/
def column {α : Type} (name : String) (read? : List Char → Option α) (field : String) :
    Except RowFault α :=
  let value := trim isBlank field.toList
  match read? value with
  | some a => .ok a
  | none => .error (.column name (.ofList value))

/-- The number that a length column holds. -/
def length? (value : List Char) : Option UInt64 :=
  (bounded? 10 UInt64.size value).map UInt64.ofNat

/-- The format that the fields of a row give. -/
def formatOf (high low name length spec : String) : Except RowFault MessageFormat := do
  let high ← column "id_high" byte? high
  let low ← column "id_low" byte? low
  let length ← column "length" length? length
  return ⟨⟨high, low⟩, name, length, spec⟩

/-- The format that a row describes.  The last column may be missing. -/
def ofRow : List String → Except RowFault MessageFormat
  | [high, low, name, length, spec] => formatOf high low name length spec
  | [high, low, name, length] => formatOf high low name length ""
  | row => .error (.fieldCount row.length)

/-- The format that the texts of a record describe. -/
def ofTexts (r : Record) (row : List String) : Except TableError MessageFormat :=
  (ofRow row).mapError (.invalidRow r.position.line)

def ofRecord (r : Record) : Except TableError MessageFormat :=
  r.texts.bind (ofTexts r)

/-- The formats that records describe, of which the first may be a heading. -/
def ofRecords : List Record → Except TableError (List MessageFormat)
  | [] => .ok []
  | r :: rs => do
    let row ← r.texts
    if isHeading row then rs.mapM ofRecord
    else
      let f ← ofTexts r row
      return f :: (← rs.mapM ofRecord)

/-- The formats of a catalog file. -/
def read (bytes : List UInt8) : Except TableError (List MessageFormat) :=
  ofRecords (records bytes)

end LinkMonitor.Table
