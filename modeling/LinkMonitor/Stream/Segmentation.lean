import LinkMonitor.Registry.Basic

/-!
# Frames in a stream of bytes

Bytes are cut into whole frames of known headers and bytes that belong to none.  Nothing is lost:
the segments and the pending bytes are the bytes that were cut (`bytes_segment`).
-/

namespace LinkMonitor

/-- A part of the stream: a whole frame, or a byte that belongs to none. -/
inductive Segment where
  | message (message : Message)
  | unrecognized (byte : UInt8)
deriving DecidableEq, Repr

/-- The bytes that a segment stands for. -/
def Segment.bytes : Segment → List UInt8
  | .message m => m.bytes
  | .unrecognized b => [b]

namespace Registry

/-- Cuts bytes into segments from the front.  The second part is the beginning of a frame of which
bytes are still missing: a last byte that may begin a header, or a header with too little data. -/
def segment (r : Registry) : List UInt8 → List Segment × List UInt8
  | [] => ([], [])
  | [b] => if r.startsHeader b then ([], [b]) else ([.unrecognized b], [])
  | high :: low :: rest =>
    match r.format? ⟨high, low⟩ with
    | none =>
      let (segments, pending) := segment r (low :: rest)
      (.unrecognized high :: segments, pending)
    | some f =>
      let size := f.frameLength - Header.size
      let data := rest.take size
      if data.length < size then ([], high :: low :: rest)
      else
        let (segments, pending) := segment r (rest.drop size)
        (.message ⟨⟨high, low⟩, data⟩ :: segments, pending)
termination_by bytes => bytes.length
decreasing_by all_goals simp only [List.length_cons, List.length_drop]; omega

@[simp] theorem segment_nil (r : Registry) : r.segment [] = ([], []) := by
  simp [segment]

/-- The bytes of the segments, followed by the rest, are the bytes that were cut. -/
theorem bytes_segment (r : Registry) (bs : List UInt8) :
    (r.segment bs).1.flatMap Segment.bytes ++ (r.segment bs).2 = bs := by
  fun_induction segment r bs with
  | case1 => rfl
  | case2 => rfl
  | case3 => rfl
  | case4 high low rest _ segments pending h ih => simp_all [Segment.bytes]
  | case5 => rfl
  | case6 high low rest f _ size data _ segments pending h ih =>
    simp only [h] at ih
    simp [Segment.bytes, Message.bytes, Header.bytes, data, ih]

end Registry

/-- Puts together the frames of a stream that arrives in chunks. -/
structure Reassembler where
  pending : List UInt8 := []
deriving DecidableEq, Repr

namespace Reassembler

/-- Takes a chunk after the pending bytes and gives the segments that are complete. -/
def feed (a : Reassembler) (r : Registry) (chunk : List UInt8) : List Segment × Reassembler :=
  let (segments, pending) := r.segment (a.pending ++ chunk)
  (segments, ⟨pending⟩)

/-- Forgets the pending bytes and gives their number. -/
def reset (a : Reassembler) : Nat × Reassembler :=
  (a.pending.length, {})

end Reassembler

end LinkMonitor
