import LinkMonitor.Text.Numeral

/-! # Times -/

namespace LinkMonitor.Output

open LinkMonitor.Text

/-- A day of the calendar. -/
structure Day where
  year : Nat
  month : Nat
  day : Nat
deriving DecidableEq, Repr

/-- The day that is so many days after the first of January 1970.  Years are counted from March on,
so that a leap day is the last of its year, in cycles of 400 years. -/
def Day.ofNat (days : Nat) : Day :=
  let n := days + 719468
  let inCycle := n % 146097
  let year := (inCycle - inCycle / 1460 + inCycle / 36524 - inCycle / 146096) / 365
  let inYear := inCycle - (365 * year + year / 4 - year / 100)
  let month := (5 * inYear + 2) / 153
  let marchYear := n / 146097 * 400 + year
  { year := if month < 10 then marchYear else marchYear + 1
    month := if month < 10 then month + 3 else month - 9
    day := inYear - (153 * month + 2) / 5 + 1 }

/-- The decimal digits of a number, with zeros in front up to a width. -/
def padded (width n : Nat) : List Char :=
  let digits := decimal n
  List.replicate (width - digits.length) '0' ++ digits

/-- A part of a second after a point, without zeros at its end. -/
def fraction (nanoseconds : Nat) : List Char :=
  if nanoseconds = 0 then []
  else '.' :: ((padded 9 nanoseconds).reverse.dropWhile (· == '0')).reverse

/-- The time that is so many nanoseconds after the start of 1970, in the form of RFC 3339. -/
def timestamp (nanoseconds : Nat) : String :=
  let seconds := nanoseconds / 1000000000
  let d := Day.ofNat (seconds / 86400)
  let s := seconds % 86400
  .ofList (padded 4 d.year ++ '-' :: padded 2 d.month ++ '-' :: padded 2 d.day ++
    'T' :: padded 2 (s / 3600) ++ ':' :: padded 2 (s / 60 % 60) ++ ':' :: padded 2 (s % 60) ++
    fraction (nanoseconds % 1000000000) ++ ['Z'])

end LinkMonitor.Output
