import LinkMonitor.Text.Hex

/-! # What the monitor reports -/

namespace LinkMonitor

open LinkMonitor.Text

inductive Event where
  /-- The text of a recognized message. -/
  | decoded (text : String)
  /-- A byte that belongs to no frame. -/
  | unrecognized (byte : UInt8)
  /-- A remark on the state of the monitor. -/
  | note (text : String)
deriving DecidableEq, Repr

namespace Event

def text : Event → String
  | .decoded text => text
  | .unrecognized byte => "unrecognized: 0x" ++ .ofList (hexByte byte)
  | .note text => "note: " ++ text

def isNote : Event → Bool
  | .note _ => true
  | _ => false

end Event

end LinkMonitor
