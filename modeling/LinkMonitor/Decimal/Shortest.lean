/-!
# The fewest digits that read back

All numbers nearer to one binary number than to its neighbours form a cell.  Of the decimals in the
cell the one with the fewest digits is wanted, and of those the nearest to the centre.
-/

namespace LinkMonitor.Decimal

/-- The number `digits * 10 ^ exponent`. -/
structure Scientific where
  digits : Nat
  exponent : Int
deriving DecidableEq, Repr

/-- The positive numbers that round to one binary number, as multiples of `2 ^ exponent`.  The two
ends belong to it if `closed`. -/
structure Cell where
  low : Nat
  centre : Nat
  high : Nat
  exponent : Int
  closed : Bool

namespace Cell

/-- The cell of `mantissa * 2 ^ exponent`, which reaches half way to its neighbours. -/
def around (mantissa : Nat) (exponent : Int) (leading : Bool) : Cell where
  low := 4 * mantissa - if leading then 1 else 2
  centre := 4 * mantissa
  high := 4 * mantissa + 2
  exponent := exponent - 2
  closed := mantissa % 2 == 0

/-- A power of ten above the cell. -/
def ceiling (C : Cell) : Int :=
  ((C.centre.log2 : Int) + 2 + C.exponent) * 30103 / 100000 + 2

/-- The step of the grid of multiples of `10 ^ e`, in the unit of `scale`. -/
def step (C : Cell) (e : Int) : Nat :=
  Nat.pow 10 e.toNat <<< (-C.exponent).toNat

/-- What the ends and the centre are multiplied by to be compared with points of a grid. -/
def scale (C : Cell) (e : Int) : Nat :=
  Nat.pow 10 (-e).toNat <<< C.exponent.toNat

/-- The last point of a grid that is not above the centre. -/
def below (C : Cell) (e : Int) : Nat :=
  C.centre * C.scale e / C.step e

/-- Whether a point of a grid lies in the cell. -/
def contains (C : Cell) (e : Int) (d : Nat) : Bool :=
  let x := d * C.step e
  let low := C.low * C.scale e
  let high := C.high * C.scale e
  (low < x && x < high) || (C.closed && (x == low || x == high))

/-- The digits at which a grid meets the cell.  Only the two points about the centre count; of two
that lie in the cell the nearer is taken, and the upper of two that are equally near. -/
def onGrid? (C : Cell) (e : Int) : Option Nat :=
  let d := C.below e
  let centre := C.centre * C.scale e
  match C.contains e d, C.contains e (d + 1) with
  | true, true =>
    if centre - d * C.step e < (d + 1) * C.step e - centre then some d else some (d + 1)
  | true, false => some d
  | false, true => some (d + 1)
  | false, false => none

/-- Looks through ever finer grids, at most `fuel` of them, for the first that meets the cell. -/
def search (C : Cell) : Nat → Int → Scientific
  | 0, e => ⟨C.below e, e⟩
  | fuel + 1, e =>
    match C.onGrid? e with
    | some d => ⟨d, e⟩
    | none => search C fuel (e - 1)

/-- The number of fewest digits in the cell, and of those the nearest to its centre. -/
def shortest (C : Cell) : Scientific :=
  C.search 24 C.ceiling

end Cell

end LinkMonitor.Decimal
