import LinkMonitor.Event
import LinkMonitor.Format

/-! # JSON -/

namespace LinkMonitor.Output

open LinkMonitor.Text

/-- The values that are printed as JSON. -/
inductive Json where
  | text (s : String)
  | number (n : Nat)
  | array (items : List Json)
  | object (fields : List (String × Json))

namespace Json

/-- A character between quotes.  Only quotes, backslashes and control characters are escaped. -/
def escaped (c : Char) : List Char :=
  match c with
  | '"' | '\\' => ['\\', c]
  | '\x08' => ['\\', 'b']
  | '\t' => ['\\', 't']
  | '\n' => ['\\', 'n']
  | '\x0c' => ['\\', 'f']
  | '\r' => ['\\', 'r']
  | _ =>
    if c.toNat < 0x20 then
      ['\\', 'u', '0', '0', Nat.digitChar (c.toNat / 16), Nat.digitChar (c.toNat % 16)]
    else [c]

def quoted (s : String) : List Char := '"' :: (s.toList.flatMap escaped ++ ['"'])

/-- A line break, and the indentation of a depth. -/
def lineBreak (depth : Nat) : List Char := '\n' :: List.replicate (2 * depth) ' '

/-- Items between brackets, each on a line of its own. -/
def block (opening closing : Char) (depth : Nat) (items : List (List Char)) : List Char :=
  if items.isEmpty then [opening, closing]
  else opening :: ([','].intercalate (items.map (lineBreak (depth + 1) ++ ·)) ++
    (lineBreak depth ++ [closing]))

mutual

/-- A value without any space. -/
def compact : Json → List Char
  | .text s => quoted s
  | .number n => decimal n
  | .array items => '[' :: ([','].intercalate (compactAll items) ++ [']'])
  | .object fields => '\x7b' :: ([','].intercalate (compactFields fields) ++ ['\x7d'])

def compactAll : List Json → List (List Char)
  | [] => []
  | v :: vs => v.compact :: compactAll vs

def compactFields : List (String × Json) → List (List Char)
  | [] => []
  | (key, v) :: rest => (quoted key ++ ':' :: v.compact) :: compactFields rest

end

mutual

/-- A value on several lines, with what it holds indented. -/
def pretty (depth : Nat) : Json → List Char
  | .text s => quoted s
  | .number n => decimal n
  | .array items => block '[' ']' depth (prettyAll (depth + 1) items)
  | .object fields => block '\x7b' '\x7d' depth (prettyFields (depth + 1) fields)

def prettyAll (depth : Nat) : List Json → List (List Char)
  | [] => []
  | v :: vs => v.pretty depth :: prettyAll depth vs

def prettyFields (depth : Nat) : List (String × Json) → List (List Char)
  | [] => []
  | (key, v) :: rest =>
    (quoted key ++ ':' :: ' ' :: v.pretty depth) :: prettyFields depth rest

end

end Json

/-- An event, with the time if it is to be told. -/
def eventJson (stamp : Option String) (e : Event) : Json :=
  let (kind, value) := match e with
    | .decoded text => ("decoded_message", Json.text text)
    | .unrecognized byte => ("unrecognized_byte", .number byte.toNat)
    | .note text => ("status_note", .text text)
  .object ([("kind", .text kind)] ++ (stamp.map fun s ↦ ("ts", Json.text s)).toList ++
    [("value", value)])

def formatJson (f : MessageFormat) : Json :=
  .object [("format", .text f.spec), ("id_high", .number f.header.high.toNat),
    ("id_low", .number f.header.low.toNat), ("length", .number f.length.toNat),
    ("name", .text f.name)]

end LinkMonitor.Output
