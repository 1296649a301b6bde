import LinkMonitor.Payload.Number

/-!
# Numeric fields

The kinds of field, their codes and widths, and the values that bytes have as fields, the least
significant byte first.
-/

namespace LinkMonitor.Payload

open LinkMonitor.Decimal

/-- The widths of whole-number fields. -/
inductive Width where
  | w8
  | w16
  | w32
  | w64
deriving DecidableEq, Repr

/-- The number of bytes of a whole number. -/
def Width.bytes : Width → Nat
  | .w8 => 1
  | .w16 => 2
  | .w32 => 4
  | .w64 => 8

/-- The kinds of numeric field. -/
inductive Kind where
  | unsigned (width : Width)
  | signed (width : Width)
  | single
  | double
deriving DecidableEq, Repr

namespace Kind

/-- The number of bytes that a field takes. -/
def width : Kind → Nat
  | .unsigned .w8 | .signed .w8 => 1
  | .unsigned .w16 | .signed .w16 => 2
  | .unsigned .w32 | .signed .w32 | .single => 4
  | .unsigned .w64 | .signed .w64 | .double => 8

/-- The size of the array that a field is copied into when it is read, which is that of the number
it holds. -/
def arraySize : Kind → Nat
  | .unsigned w | .signed w => w.bytes
  | .single => 4
  | .double => 8

@[simp] theorem width_unsigned (w : Width) : width (.unsigned w) = w.bytes := by
  cases w <;> rfl

@[simp] theorem width_signed (w : Width) : width (.signed w) = w.bytes := by
  cases w <;> rfl

/-- A field is read into an array of its width. -/
@[simp] theorem arraySize_eq_width (k : Kind) : k.arraySize = k.width := by
  cases k with
  | unsigned w => exact (width_unsigned w).symm
  | signed w => exact (width_signed w).symm
  | single | double => rfl

/-- The letter of a kind in a decode spec. -/
def code : Kind → Char
  | .unsigned .w8 => 'c'
  | .signed .w8 => 'C'
  | .unsigned .w16 => 'g'
  | .signed .w16 => 'G'
  | .unsigned .w32 => 'l'
  | .signed .w32 => 'L'
  | .unsigned .w64 => 'q'
  | .signed .w64 => 'Q'
  | .single => 'f'
  | .double => 'd'

def ofCode? : Char → Option Kind
  | 'c' => some (.unsigned .w8)
  | 'C' => some (.signed .w8)
  | 'g' => some (.unsigned .w16)
  | 'G' => some (.signed .w16)
  | 'l' => some (.unsigned .w32)
  | 'L' => some (.signed .w32)
  | 'q' => some (.unsigned .w64)
  | 'Q' => some (.signed .w64)
  | 'f' => some .single
  | 'd' => some .double
  | _ => none

/-- The kind whose code is a whole word. -/
def ofWord? : List Char → Option Kind
  | [c] => ofCode? c
  | _ => none

@[simp] theorem ofWord?_code (k : Kind) : ofWord? [k.code] = some k := by
  cases k with
  | unsigned w | signed w => cases w <;> rfl
  | single | double => rfl

end Kind

/-- The number that bytes hold with the least significant first. -/
def littleEndian : List UInt8 → Nat
  | [] => 0
  | b :: bs => b.toNat + 256 * littleEndian bs

/-- The least significant bytes of a number, least first. -/
def toLittleEndian : Nat → Nat → List UInt8
  | 0, _ => []
  | width + 1, n => UInt8.ofNat n :: toLittleEndian width (n / 256)

/-- The value in two's complement of a number of so many bytes. -/
def twosComplement (bytes n : Nat) : Int :=
  if n < 1 <<< (8 * bytes - 1) then n else n - (1 <<< (8 * bytes) : Nat)

/-- The value of a field that holds the given bytes. -/
def Kind.valueOf (k : Kind) (bs : List UInt8) : Number :=
  match k with
  | .unsigned _ => .exact (littleEndian bs)
  | .signed w => .exact (twosComplement w.bytes (littleEndian bs))
  | .single => .real (widen (UInt32.ofNat (littleEndian bs)))
  | .double => .real (Float.ofBits (UInt64.ofNat (littleEndian bs)))

@[simp] theorem length_toLittleEndian (width n : Nat) :
    (toLittleEndian width n).length = width := by
  induction width generalizing n with
  | zero => rfl
  | succ width ih => simp [toLittleEndian, ih]

theorem littleEndian_lt (bs : List UInt8) : littleEndian bs < 1 <<< (8 * bs.length) := by
  induction bs with
  | nil => decide
  | cons b bs ih =>
    have hb := b.toNat_lt
    simp only [littleEndian, List.length_cons, Nat.shiftLeft_eq, Nat.mul_add, Nat.pow_add] at ih ⊢
    omega

end LinkMonitor.Payload
