import LinkMonitor.Files.Error
import LinkMonitor.Table.Records

/-! # What can be wrong with a catalog file -/

namespace LinkMonitor

namespace Table

/-- The columns of a catalog. -/
def columns : List String := ["id_high", "id_low", "name", "length", "format"]

/-- What is wrong with a row. -/
inductive RowFault where
  | fieldCount (count : Nat)
  | column (name value : String)
deriving DecidableEq, Repr

def RowFault.message : RowFault → String
  | .fieldCount count =>
    "expected " ++ toString columns.length ++ " fields, got " ++ toString count
  | .column name value => "invalid " ++ name ++ " '" ++ value ++ "'"

end Table

/-- Why a catalog cannot be read or written. -/
inductive TableError where
  /-- The file cannot be opened. -/
  | io (cause : FileError)
  /-- The file can be opened but its bytes cannot be read. -/
  | unreadable (cause : FileError)
  /-- A field is no text: its place in the record, and the place of the bad byte in the field. -/
  | notText (position : Table.Position) (field byte : Nat)
  /-- A row is no format. -/
  | invalidRow (line : Nat) (fault : Table.RowFault)
deriving DecidableEq, Repr

namespace TableError

/-- How a field that is no text is described. -/
def badText (p : Table.Position) (field byte : Nat) : String :=
  "CSV parse error: record " ++ toString p.record ++ " (line " ++ toString p.line ++
    ", field: " ++ toString field ++ ", byte: " ++ toString p.byte ++
    "): invalid utf-8: invalid UTF-8 in field " ++ toString field ++
    " near byte index " ++ toString byte

def message : TableError → String
  | .io e => "I/O error: " ++ e.message
  | .unreadable e => "CSV error: " ++ e.message
  | .notText p field byte => "CSV error: " ++ badText p field byte
  | .invalidRow line fault =>
    "invalid catalog record on line " ++ toString line ++ ": " ++ fault.message

/-- What lies below the error, if anything does. -/
def cause? : TableError → Option String
  | .io e | .unreadable e => some e.message
  | .notText p field byte => some (badText p field byte)
  | .invalidRow _ _ => none

/-- The message and, after it once more, the cause. -/
def report (e : TableError) : String :=
  match e.cause? with
  | some cause => e.message ++ ": " ++ cause
  | none => e.message

end TableError

end LinkMonitor
