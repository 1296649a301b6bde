/-!
# Whole numbers in a base

Readers of digits, with and without a sign, and the decimal digits of a number.
-/

namespace LinkMonitor.Text

/-- The value of a digit of a base up to sixteen; the letters stand in either case. -/
def digit? (base : Nat) (c : Char) : Option Nat :=
  let value :=
    if '0' ≤ c ∧ c ≤ '9' then some (c.toNat - 48)
    else if 'a' ≤ c ∧ c ≤ 'f' then some (c.toNat - 87)
    else if 'A' ≤ c ∧ c ≤ 'F' then some (c.toNat - 55)
    else none
  value.filter (· < base)

/-- The number that digits go on to spell after the digits of `n`. -/
def extend? (base : Nat) : Nat → List Char → Option Nat
  | n, [] => some n
  | n, c :: cs => (digit? base c).bind fun d ↦ extend? base (base * n + d) cs

/-- The number spelled by one or more digits and nothing else. -/
def natural? (base : Nat) : List Char → Option Nat
  | [] => none
  | cs => extend? base 0 cs

/-- The number below a bound that one or more digits spell, after at most one plus sign. -/
def bounded? (base bound : Nat) (cs : List Char) : Option Nat :=
  let digits := match cs with
    | '+' :: rest => rest
    | _ => cs
  (natural? base digits).filter (· < bound)

/-- The whole number spelled by one or more decimal digits after at most one sign. -/
def integer? : List Char → Option Int
  | '-' :: cs => (natural? 10 cs).map fun n ↦ -(n : Int)
  | '+' :: cs => (natural? 10 cs).map Int.ofNat
  | cs => (natural? 10 cs).map Int.ofNat

/-- The decimal digits of a number, without leading zeros. -/
def decimal (n : Nat) : List Char :=
  Nat.toDigits 10 n

/-- The decimal digits of a whole number after a minus sign if it is negative. -/
def signedDecimal : Int → List Char
  | .ofNat n => decimal n
  | .negSucc n => '-' :: decimal (n + 1)

@[simp] theorem natural?_nil (base : Nat) : natural? base [] = none := rfl

@[simp] theorem natural?_cons (base : Nat) (c : Char) (cs : List Char) :
    natural? base (c :: cs) = extend? base 0 (c :: cs) := rfl

theorem extend?_append (base n : Nat) (s t : List Char) :
    extend? base n (s ++ t) = (extend? base n s).bind fun m ↦ extend? base m t := by
  induction s generalizing n with
  | nil => rfl
  | cons c cs ih =>
    cases h : digit? base c with
    | none => simp [extend?, h]
    | some d => simp [extend?, h, ih]

end LinkMonitor.Text
