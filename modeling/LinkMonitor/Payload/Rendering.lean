import LinkMonitor.Payload.Cursor
import LinkMonitor.Payload.Directive
import LinkMonitor.Text.Hex

/-!
# Payloads as text

Each directive of a spec reads on where the one before it has stopped, and contributes a piece of
text.  The pieces that are not empty are joined by spaces.
-/

namespace LinkMonitor.Payload

open LinkMonitor.Text

/-- A byte as a character, with a point for what cannot be printed. -/
def printable (b : UInt8) : Char :=
  if 0x20 ≤ b ∧ b ≤ 0x7E then Char.ofNat b.toNat else '.'

/-- The characters of bytes up to the first zero. -/
def asciiText (bs : List UInt8) : List Char :=
  (bs.takeWhile (· ≠ 0)).map printable

/-- The value of a number after all transforms. -/
def Transform.applyAll (ts : List Transform) (n : Number) : Except DecodeError Number :=
  ts.foldlM (fun n t ↦ n.apply t.operator t.operand) n

/-- What is shown for a field that cannot be shown. -/
def diagnostic : String := "?"

namespace Directive

/-- What a directive shows at a place of a payload, and the place after it. -/
def render : Directive → Cursor → Except DecodeError String × Cursor
  | .field k ts, c =>
    let (value, rest) := c.takeField k
    ((value.bind (Transform.applyAll ts)).map Number.text, rest)
  | .hex count, c =>
    let (bytes, rest) := c.take count
    (bytes.map fun bs ↦ .ofList (hexBytes bs), rest)
  | .ascii (some count), c =>
    let (bytes, rest) := c.take count
    (bytes.map fun bs ↦ .ofList (asciiText bs), rest)
  | .ascii none, c =>
    let (bytes, rest) := c.takeRest
    (.ok (.ofList (asciiText bytes)), rest)
  | .literal text, c => (.ok text, c)

/-- What a directive contributes to the text. -/
def piece (d : Directive) (c : Cursor) : String :=
  match (d.render c).1 with
  | .ok text => text
  | .error _ => diagnostic

/-- The place after a directive. -/
def after (d : Directive) (c : Cursor) : Cursor :=
  (d.render c).2

end Directive

/-- What each directive of a list contributes, read from a place on. -/
def pieces : List Directive → Cursor → List String
  | [], _ => []
  | d :: ds, c => d.piece c :: pieces ds (d.after c)

/-- The pieces that are not empty, with a space between any two, if there are any. -/
def joined (ps : List String) : Option String :=
  match ps.filter (· ≠ "") with
  | [] => none
  | shown => some (" ".intercalate shown)

/-- The text of a payload under a decode spec. -/
def decode (spec : String) (payload : List UInt8) : Option String :=
  joined (pieces (Directive.ofSpec spec) (.start payload))

end LinkMonitor.Payload
