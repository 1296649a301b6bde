import LinkMonitor.Decimal.Reading

/-!
# Numbers of the decoder

Arithmetic is exact on whole numbers as long as the result is a whole number of 128 bits.  It fails
only in a division by zero (`apply_eq_error_iff`).
-/

namespace LinkMonitor.Payload

open LinkMonitor.Text LinkMonitor.Decimal

/-- Why a field of a payload cannot be shown. -/
inductive DecodeError where
  | tooShort (needed actual : Nat)
  | divisionByZero
deriving DecidableEq, Repr

def DecodeError.message : DecodeError → String
  | .tooShort needed actual =>
    "payload too short: need " ++ toString needed ++ " bytes, got " ++ toString actual
  | .divisionByZero => "division by zero"

inductive Operator where
  | mul
  | div
  | add
  | sub
deriving DecidableEq, Repr

namespace Operator

def symbol : Operator → Char
  | .mul => '*'
  | .div => '/'
  | .add => '+'
  | .sub => '-'

def ofWord? : List Char → Option Operator
  | ['*'] => some .mul
  | ['/'] => some .div
  | ['+'] => some .add
  | ['-'] => some .sub
  | _ => none

@[simp] theorem ofWord?_symbol (op : Operator) : ofWord? [op.symbol] = some op := by
  cases op <;> rfl

/-- The operation on doubles. -/
def onFloats : Operator → Float → Float → Float
  | .mul, x, y => x * y
  | .div, x, y => x / y
  | .add, x, y => x + y
  | .sub, x, y => x - y

/-- The exact result on whole numbers, if it is a whole number. -/
def onInts? : Operator → Int → Int → Option Int
  | .mul, a, b => some (a * b)
  | .add, a, b => some (a + b)
  | .sub, a, b => some (a - b)
  | .div, a, b => if a.tmod b = 0 then some (a.tdiv b) else none

end Operator

/-- Whether a whole number has a place among 128 signed bits. -/
def Fits (n : Int) : Prop :=
  -(1 <<< 127 : Nat) ≤ n ∧ n < (1 <<< 127 : Nat)

instance (n : Int) : Decidable (Fits n) :=
  inferInstanceAs (Decidable (_ ∧ _))

/-- A number is kept exactly as long as it is a whole number of 128 bits, and as a double from then
on. -/
inductive Number where
  | exact (value : Int)
  | real (value : Float)

namespace Number

/-- The number that a word of a decode spec stands for. -/
def ofWord? (w : List Char) : Option Number :=
  match (integer? w).filter (Fits ·) with
  | some n => some (.exact n)
  | none => (float? w).map .real

def toFloat : Number → Float
  | .exact n => Float.ofInt n
  | .real x => x

def isZero : Number → Bool
  | .exact n => n == 0
  | .real x => x == 0.0

/-- The result of an operation that can be kept exactly. -/
def whole? (op : Operator) : Number → Number → Option Int
  | .exact a, .exact b => (op.onInts? a b).filter (Fits ·)
  | _, _ => none

/-- Applies an operation, exactly if the result can be kept so. -/
def apply (x : Number) (op : Operator) (y : Number) : Except DecodeError Number :=
  if op = .div ∧ y.isZero then .error .divisionByZero
  else match whole? op x y with
    | some n => .ok (.exact n)
    | none => .ok (.real (op.onFloats x.toFloat y.toFloat))

def text : Number → String
  | .exact n => .ofList (signedDecimal n)
  | .real x => .ofList (floatText x)

@[simp] theorem text_exact (n : Int) : (exact n).text = .ofList (signedDecimal n) := rfl

@[simp] theorem text_real (x : Float) : (real x).text = .ofList (floatText x) := rfl

theorem apply_eq_error_iff {x y : Number} {op : Operator} {e : DecodeError} :
    x.apply op y = .error e ↔ e = .divisionByZero ∧ op = .div ∧ y.isZero := by
  unfold apply
  by_cases h : op = .div ∧ y.isZero = true
  · rw [if_pos h]
    exact ⟨fun he ↦ ⟨(Except.error.inj he).symm, h⟩, fun he ↦ by rw [he.1]⟩
  · rw [if_neg h]
    refine ⟨fun he ↦ ?_, fun he ↦ absurd he.2 h⟩
    split at he <;> cases he

end Number

end LinkMonitor.Payload
