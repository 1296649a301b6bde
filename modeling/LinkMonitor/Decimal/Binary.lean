/-!
# Binary floating-point numbers taken apart

A finite number is a whole mantissa times a power of two.
-/

namespace LinkMonitor.Decimal

/-- The widths of the fraction and of the exponent in a binary interchange format. -/
structure Layout where
  fractionBits : Nat
  exponentBits : Nat

namespace Layout

def binary32 : Layout := ⟨23, 8⟩

def binary64 : Layout := ⟨52, 11⟩

/-- What is subtracted from a stored exponent to give the power of two of the last fraction bit. -/
def bias (L : Layout) : Nat :=
  1 <<< (L.exponentBits - 1) - 1 + L.fractionBits

end Layout

/-- A finite number is `mantissa * 2 ^ exponent`.  It is `leading` if it is the least with its
exponent, so that the numbers below it lie twice as close as those above. -/
inductive Binary where
  | nan
  | infinite (negative : Bool)
  | finite (negative : Bool) (mantissa : Nat) (exponent : Int) (leading : Bool)
deriving DecidableEq, Repr

namespace Binary

/-- The number that the bits of a format stand for. -/
def ofBits (L : Layout) (bits : Nat) : Binary :=
  let fraction := bits % (1 <<< L.fractionBits)
  let stored := (bits >>> L.fractionBits) % (1 <<< L.exponentBits)
  let negative := bits.testBit (L.fractionBits + L.exponentBits)
  if stored + 1 = 1 <<< L.exponentBits then
    if fraction = 0 then .infinite negative else .nan
  else if stored = 0 then .finite negative fraction (1 - (L.bias : Int)) false
  else .finite negative (1 <<< L.fractionBits + fraction) (stored - (L.bias : Int)) (fraction == 0)

end Binary

end LinkMonitor.Decimal
