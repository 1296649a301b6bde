import LinkMonitor.Decimal.Plain

/-! # Reading decimal numerals -/

namespace LinkMonitor.Decimal

open LinkMonitor.Text

/-- The digits at the front of a text, and what follows them. -/
def spanDigits (s : List Char) : List Char × List Char :=
  (s.takeWhile Char.isDigit, s.dropWhile Char.isDigit)

/-- The power of ten after the digits of a numeral: nothing, or the letter `e` and a whole
number. -/
def exponent? : List Char → Option Int
  | [] => some 0
  | 'e' :: cs | 'E' :: cs => integer? cs
  | _ => none

/-- A numeral without its sign: digits with at most one point among them or at an end, and perhaps
an exponent. -/
def unsigned? (s : List Char) : Option Scientific :=
  let (whole, afterWhole) := spanDigits s
  let (tenths, rest) := match afterWhole with
    | '.' :: cs => spanDigits cs
    | _ => ([], afterWhole)
  (natural? 10 (whole ++ tenths)).bind fun digits ↦
    (exponent? rest).map fun e ↦ ⟨digits, e - tenths.length⟩

/-- The double nearest to a decimal numeral, unless that is infinite. -/
def float? (s : List Char) : Option Float :=
  let value := match s with
    | '-' :: cs => (unsigned? cs).map fun (n : Scientific) ↦ -n.toFloat
    | '+' :: cs => (unsigned? cs).map Scientific.toFloat
    | _ => (unsigned? s).map Scientific.toFloat
  value.filter Float.isFinite

end LinkMonitor.Decimal
