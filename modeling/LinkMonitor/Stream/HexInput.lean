import LinkMonitor.Text.Blank
import LinkMonitor.Text.Numeral

/-! # Bytes typed in hexadecimal -/

namespace LinkMonitor

open LinkMonitor.Text

/-- Why a typed text stands for no bytes. -/
inductive HexInputError where
  | empty
  | invalidToken (index : Nat) (token : String)
deriving DecidableEq, Repr

def HexInputError.message : HexInputError → String
  | .empty => "no bytes entered"
  | .invalidToken index token =>
    "invalid hex byte '" ++ token ++ "' at position " ++ toString index

namespace HexInput

/-- The byte that one or two hexadecimal digits spell. -/
def token? (w : List Char) : Option UInt8 :=
  if w.length ≤ 2 then (natural? 16 w).map UInt8.ofNat else none

/-- The bytes of words, the first of which stands at a given place. -/
def ofWords : Nat → List (List Char) → Except HexInputError (List UInt8)
  | _, [] => .ok []
  | i, w :: ws =>
    match token? w with
    | some b => (ofWords (i + 1) ws).map (b :: ·)
    | none => .error (.invalidToken i (.ofList w))

/-- The bytes that the words of a text spell, of which there must be at least one. -/
def parse (input : String) : Except HexInputError (List UInt8) :=
  match words isBlank input.toList with
  | [] => .error .empty
  | ws => ofWords 0 ws

end HexInput

end LinkMonitor
