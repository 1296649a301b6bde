import LinkMonitor.Text.Hex

/-! # Messages and their formats -/

namespace LinkMonitor

open LinkMonitor.Text

/-- The two bytes at the front of every frame. -/
structure Header where
  high : UInt8
  low : UInt8
deriving DecidableEq, Repr

def Header.size : Nat := 2

def Header.bytes (h : Header) : List UInt8 := [h.high, h.low]

/-- A frame taken from the link. -/
structure Message where
  header : Header
  data : List UInt8
deriving DecidableEq, Repr

namespace Message

/-- The bytes of the frame. -/
def bytes (m : Message) : List UInt8 := m.header.bytes ++ m.data

/-- The bytes in hexadecimal with single spaces between them. -/
def text (m : Message) : String :=
  " ".intercalate (m.bytes.map fun b ↦ .ofList (hexByte b))

end Message

/-- What is known about the frames with one header: a name, the number of data bytes and the spec
that turns them into text. -/
structure MessageFormat where
  header : Header
  name : String
  length : UInt64
  spec : String
deriving DecidableEq, Repr

namespace MessageFormat

/-- The size of a whole frame, or the greatest word if that is less. -/
def frameLength (f : MessageFormat) : Nat :=
  min (Header.size + f.length.toNat) (UInt64.size - 1)

def text (f : MessageFormat) : String :=
  .ofList (hexByte f.header.high) ++ " " ++ .ofList (hexByte f.header.low) ++ " " ++ f.name ++
    " [" ++ .ofList (decimal f.length.toNat) ++ "] " ++ f.spec

end MessageFormat

end LinkMonitor
