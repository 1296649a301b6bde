import LinkMonitor.Payload.Field

/-!
# Reading a payload from front to back

A read that asks for more than remains fails and reads nothing.
-/

namespace LinkMonitor.Payload

/-- A place in a payload: how many bytes have been read, and those that have not. -/
structure Cursor where
  position : Nat
  unread : List UInt8
deriving DecidableEq, Repr

namespace Cursor

def start (payload : List UInt8) : Cursor := ⟨0, payload⟩

def remaining (c : Cursor) : Nat := c.unread.length

def advance (c : Cursor) (count : Nat) : Cursor :=
  ⟨c.position + count, c.unread.drop count⟩

/-- Fails if fewer bytes remain than are needed. -/
def require (c : Cursor) (needed : Nat) : Except DecodeError Unit :=
  if c.remaining < needed then .error (.tooShort needed c.remaining) else .ok ()

/-- Reads so many bytes; if fewer remain, reads none. -/
def take (c : Cursor) (count : Nat) : Except DecodeError (List UInt8) × Cursor :=
  match c.require count with
  | .error e => (.error e, c)
  | .ok () => (.ok (c.unread.take count), c.advance count)

/-- Reads all that remains. -/
def takeRest (c : Cursor) : List UInt8 × Cursor :=
  (c.unread, c.advance c.remaining)

/-- Reads a field of a kind. -/
def takeField (c : Cursor) (k : Kind) : Except DecodeError Number × Cursor :=
  let (bytes, rest) := c.take k.arraySize
  (bytes.map k.valueOf, rest)

variable {c : Cursor} {count : Nat}

@[simp] theorem remaining_start (payload : List UInt8) :
    (start payload).remaining = payload.length := rfl

@[simp] theorem unread_advance : (c.advance count).unread = c.unread.drop count := rfl

theorem take_of_le (h : count ≤ c.remaining) :
    c.take count = (.ok (c.unread.take count), c.advance count) := by
  simp [take, require, Nat.not_lt.2 h]

theorem take_of_lt (h : c.remaining < count) :
    c.take count = (.error (.tooShort count c.remaining), c) := by
  simp [take, require, h]

end Cursor

end LinkMonitor.Payload
