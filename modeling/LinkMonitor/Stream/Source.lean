/-! # Sources of bytes -/

namespace LinkMonitor

/-- Why a source delivers nothing. -/
inductive SourceError where
  | io (message : String)
  | closed
  | invalidChunkSize (size : Nat)
deriving DecidableEq, Repr

def SourceError.message : SourceError → String
  | .io message => "I/O error: " ++ message
  | .closed => "source is closed"
  | .invalidChunkSize size => "invalid chunk size: " ++ toString size

/-- What the monitor asks of a source: whether it is open, how many bytes it holds ready, and to
write some of them to the front of a buffer.  A read says how many bytes it has written, at most as
many as there is room for, and what has become of the source and of the buffer, also if it fails. -/
class ByteSource (σ : Type) where
  isOpen : σ → Bool
  available : σ → Nat
  read {room : Nat} : σ → Vector UInt8 room →
    σ × Vector UInt8 room × Except SourceError (Fin (room + 1))

/-- A buffer after bytes have been written to the front of it. -/
def overwrite {room : Nat} (buffer : Vector UInt8 room) (bytes : List UInt8) : Vector UInt8 room :=
  ⟨(bytes.take room ++ buffer.toList.drop bytes.length).toArray, by simp; omega⟩

theorem toList_overwrite {room : Nat} {bytes : List UInt8} (h : bytes.length ≤ room)
    (buffer : Vector UInt8 room) :
    (overwrite buffer bytes).toList = bytes ++ buffer.toList.drop bytes.length := by
  simp [overwrite, List.take_of_length_le h]

/-- A recorded capture that is released in chunks. -/
structure Replay where
  data : List UInt8
  position : Nat
  chunkSize : Nat
  isOpen : Bool
  chunkSize_pos : 0 < chunkSize

namespace Replay

/-- An open replay at the start of a capture. -/
def start (capture : List UInt8) (chunkSize : Nat) : Except SourceError Replay :=
  if h : 0 < chunkSize then .ok ⟨capture, 0, chunkSize, true, h⟩
  else .error (.invalidChunkSize chunkSize)

def resume (s : Replay) : Replay := { s with isOpen := true }

def close (s : Replay) : Replay := { s with isOpen := false }

/-- The size of the whole capture. -/
def size (s : Replay) : Nat := s.data.length

def isExhausted (s : Replay) : Bool := s.data.length ≤ s.position

/-- The bytes that have not been delivered. -/
def unread (s : Replay) : List UInt8 := s.data.drop s.position

/-- The number of bytes that are left, but no more than a chunk.  A closed replay has nothing
ready. -/
def available (s : Replay) : Nat :=
  if s.isOpen then min (s.data.length - s.position) s.chunkSize else 0

/-- Delivers what is ready, as far as there is room. -/
def read {room : Nat} (s : Replay) (buffer : Vector UInt8 room) :
    Replay × Vector UInt8 room × Except SourceError (Fin (room + 1)) :=
  if s.isOpen then
    let count := min room s.available
    ({ s with position := s.position + count },
      overwrite buffer (s.unread.take count), .ok ⟨count, by omega⟩)
  else (s, buffer, .error .closed)

theorem length_unread (s : Replay) : s.unread.length = s.data.length - s.position :=
  List.length_drop

theorem available_le_length (s : Replay) : s.available ≤ s.unread.length := by
  rw [available, length_unread]
  split <;> omega

theorem available_of_isOpen {s : Replay} (h : s.isOpen = true) :
    s.available = min (s.data.length - s.position) s.chunkSize := by
  simp [available, h]

theorem available_of_not_isOpen {s : Replay} (h : s.isOpen = false) : s.available = 0 := by
  simp [available, h]

instance : ByteSource Replay where
  isOpen := isOpen
  available := available
  read := read

end Replay

end LinkMonitor
