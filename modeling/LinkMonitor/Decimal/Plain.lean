import LinkMonitor.Decimal.Binary
import LinkMonitor.Decimal.Shortest
import LinkMonitor.Text.Numeral

/-!
# Plain positional notation

The text of a double: as few digits as read back, never with an exponent.  Numbers of single
precision go through their text, so that what was written as `0.1` stays `0.1`.
-/

namespace LinkMonitor.Decimal

open LinkMonitor.Text

namespace Scientific

/-- The number without an exponent: zeros fill the places up to the units, and a point stands
before the tenths if there are any. -/
def plain (s : Scientific) : List Char :=
  let ds := decimal s.digits
  let places := (-s.exponent).toNat
  if places = 0 then ds ++ List.replicate s.exponent.toNat '0'
  else if places < ds.length then
    ds.take (ds.length - places) ++ '.' :: ds.drop (ds.length - places)
  else '0' :: '.' :: (List.replicate (places - ds.length) '0' ++ ds)

/-- The nearest double. -/
def toFloat (s : Scientific) : Float :=
  if s.exponent < 0 then OfScientific.ofScientific s.digits true (-s.exponent).toNat
  else OfScientific.ofScientific s.digits false s.exponent.toNat

end Scientific

/-- The text of a number: the fewest digits that read back, in plain notation.  A zero keeps its
sign, and what is no number has none. -/
def Binary.plain : Binary → List Char
  | .nan => ['N', 'a', 'N']
  | .infinite negative => signed negative ['i', 'n', 'f']
  | .finite negative mantissa exponent leading =>
    if mantissa = 0 then signed negative ['0']
    else signed negative (Cell.around mantissa exponent leading).shortest.plain
where
  signed (negative : Bool) (text : List Char) : List Char :=
    if negative then '-' :: text else text

/-- The text of a double. -/
def floatText (x : Float) : List Char :=
  (Binary.ofBits .binary64 x.toBits.toNat).plain

/-- The double whose text is that of a single-precision number given by its bits. -/
def widen (bits : UInt32) : Float :=
  match Binary.ofBits .binary32 bits.toNat with
  | .nan => 0.0 / 0.0
  | .infinite negative => signed negative (1.0 / 0.0)
  | .finite negative mantissa exponent leading =>
    if mantissa = 0 then signed negative 0.0
    else signed negative (Cell.around mantissa exponent leading).shortest.toFloat
where
  signed (negative : Bool) (x : Float) : Float :=
    if negative then -x else x

end LinkMonitor.Decimal
