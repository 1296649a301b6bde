/-!
# Records of comma-separated fields

A scanner goes over the bytes one by one.  It skips empty lines and comments, which begin with `#`,
and keeps the place behind the last record for messages.
-/

namespace LinkMonitor.Table

/-- A place between two records: how many records, line ends and bytes stand before it.  Lines are
counted from one. -/
structure Position where
  record : Nat
  line : Nat
  byte : Nat
deriving DecidableEq, Repr

/-- The fields of a record, and the place behind the record before it. -/
structure Record where
  position : Position
  fields : List (List UInt8)
deriving DecidableEq, Repr

def comma : UInt8 := 0x2C
def quote : UInt8 := 0x22
def hash : UInt8 := 0x23
def lineFeed : UInt8 := 0x0A
def carriageReturn : UInt8 := 0x0D

/-- Line feeds and carriage returns end records. -/
def endsRecord (b : UInt8) : Bool := b == lineFeed || b == carriageReturn

/-- Where a scanner stands. -/
inductive Mode where
  /-- Between two records. -/
  | between
  /-- In a comment. -/
  | comment
  /-- In front of a field of a record. -/
  | opening
  /-- In a field without quotes, or behind the closing quote of one. -/
  | bare
  /-- In a quoted field. -/
  | quoted
  /-- Behind a quote in a quoted field, which closes the field unless another quote follows. -/
  | closing
deriving DecidableEq, Repr

/-- A scanner of records.  The bytes of the present field and the fields before it in the record are
kept in reverse; `here` is the place behind the last byte. -/
structure Scanner where
  mode : Mode := .between
  field : List UInt8 := []
  fields : List (List UInt8) := []
  start : Position := ⟨0, 1, 0⟩
  here : Position := ⟨0, 1, 0⟩
deriving DecidableEq, Repr

namespace Scanner

/-- Takes note of the place behind a byte. -/
def pass (s : Scanner) (b : UInt8) : Scanner :=
  { s with here := { s.here with
      line := if b = lineFeed then s.here.line + 1 else s.here.line
      byte := s.here.byte + 1 } }

def push (s : Scanner) (b : UInt8) (mode : Mode) : Scanner :=
  { s with field := b :: s.field, mode }

def endField (s : Scanner) : Scanner :=
  { s with field := [], fields := s.field.reverse :: s.fields, mode := .opening }

/-- The record that ends here. -/
def record (s : Scanner) : Record :=
  ⟨s.start, (s.field.reverse :: s.fields).reverse⟩

/-- A scanner in front of the next record. -/
def endRecord (s : Scanner) : Scanner :=
  let here := { s.here with record := s.here.record + 1 }
  { mode := .between, field := [], fields := [], start := here, here }

/-- Ends a field or a record if the byte does so; otherwise takes the byte into the field. -/
def separate (s : Scanner) (b : UInt8) : Scanner × Option Record :=
  if b = comma then (s.endField, none)
  else if endsRecord b then (s.endRecord, some s.record)
  else (s.push b .bare, none)

/-- Begins a field with a byte. -/
def openField (s : Scanner) (b : UInt8) : Scanner × Option Record :=
  if b = quote then ({ s with mode := .quoted }, none) else s.separate b

/-- Goes past a byte, which may end a record. -/
def step (s : Scanner) (b : UInt8) : Scanner × Option Record :=
  let s := s.pass b
  match s.mode with
  | .between =>
    if endsRecord b then (s, none)
    else if b = hash then ({ s with mode := .comment }, none)
    else s.openField b
  | .comment => ({ s with mode := if b = lineFeed then .between else .comment }, none)
  | .opening => s.openField b
  | .bare => s.separate b
  | .quoted => if b = quote then ({ s with mode := .closing }, none) else (s.push b .quoted, none)
  | .closing => if b = quote then (s.push b .quoted, none) else s.separate b

/-- The record that the end of the bytes ends, unless the last one has ended already.  A comment
without a line end counts as a record with one empty field. -/
def finish (s : Scanner) : List Record :=
  if s.mode = .between then [] else [s.record]

/-- The records of the bytes that a scanner has before it. -/
def scan (s : Scanner) : List UInt8 → List Record
  | [] => s.finish
  | b :: bs =>
    match s.step b with
    | (s, none) => scan s bs
    | (s, some r) => r :: scan s bs

end Scanner

/-- The records of a file.  A byte order mark in front is no part of them. -/
def records : List UInt8 → List Record
  | 0xEF :: 0xBB :: 0xBF :: bs => Scanner.scan { here := ⟨0, 1, 3⟩ } bs
  | bs => Scanner.scan {} bs

end LinkMonitor.Table
