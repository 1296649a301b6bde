import LinkMonitor.Table.Reading

/-! # Writing catalogs -/

namespace LinkMonitor.Table

open LinkMonitor.Text

/-- Whether a field can be told apart from its surroundings only between quotes. -/
def needsQuotes (s : List Char) : Bool :=
  s.any fun c ↦ c == ',' || c == '"' || c == '\r' || c == '\n'

/-- A text with every quote doubled. -/
def doubleQuotes (s : List Char) : List Char :=
  s.flatMap fun c ↦ if c = '"' then ['"', '"'] else [c]

def writeField (s : List Char) : List Char :=
  if needsQuotes s then '"' :: (doubleQuotes s ++ ['"']) else s

/-- The fields of a row with commas between them, and a line feed. -/
def writeRow (fields : List (List Char)) : List Char :=
  [','].intercalate (fields.map writeField) ++ ['\n']

def idText (b : UInt8) : List Char := '0' :: 'x' :: hexByte b

def rowOf (f : MessageFormat) : List (List Char) :=
  [idText f.header.high, idText f.header.low, f.name.toList, decimal f.length.toNat, f.spec.toList]

/-- A catalog file: the names of the columns, and a row for each format. -/
def write (fs : List MessageFormat) : String :=
  .ofList (writeRow (columns.map String.toList) ++ (fs.map rowOf).flatMap writeRow)

end LinkMonitor.Table
