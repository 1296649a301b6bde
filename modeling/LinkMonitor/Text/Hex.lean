import LinkMonitor.Text.Numeral

/-!
# Bytes in hexadecimal

Bytes are written as two upper-case digits.  `byte?` reads the bytes of headers, which may be given
in decimal or, behind `0x`, in hexadecimal.
-/

namespace LinkMonitor.Text

/-- The upper-case hexadecimal digit of a number below sixteen. -/
def hexDigit (n : Nat) : Char :=
  Char.ofNat (if n < 10 then 48 + n else 55 + n)

/-- A byte as two upper-case hexadecimal digits. -/
def hexByte (b : UInt8) : List Char :=
  [hexDigit (b.toNat / 16), hexDigit (b.toNat % 16)]

/-- Bytes as pairs of hexadecimal digits without separators. -/
def hexBytes (bs : List UInt8) : List Char :=
  bs.flatMap hexByte

/-- The byte that a decimal number, or a hexadecimal one after `0x`, spells. -/
def byte? (cs : List Char) : Option UInt8 :=
  let value := match cs with
    | '0' :: 'x' :: rest | '0' :: 'X' :: rest => bounded? 16 256 rest
    | _ => bounded? 10 256 cs
  value.map UInt8.ofNat

/-- What is said of a text that spells no byte. -/
def notAByte (text : String) : String :=
  "'" ++ text ++ "' is not a byte (0-255 or 0x00-0xFF)"

@[simp] theorem hexBytes_nil : hexBytes [] = [] := rfl

@[simp] theorem hexBytes_cons (b : UInt8) (bs : List UInt8) :
    hexBytes (b :: bs) = hexByte b ++ hexBytes bs := rfl

@[simp] theorem length_hexBytes (bs : List UInt8) : (hexBytes bs).length = 2 * bs.length := by
  induction bs with
  | nil => rfl
  | cons b bs ih => simp [hexByte, ih]; omega

end LinkMonitor.Text
