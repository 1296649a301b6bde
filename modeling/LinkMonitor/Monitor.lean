import LinkMonitor.Event
import LinkMonitor.Payload.Rendering
import LinkMonitor.Registry.Refresh
import LinkMonitor.Stream.HexInput
import LinkMonitor.Stream.Segmentation
import LinkMonitor.Stream.Source

/-!
# The monitor

The monitor decodes the frames of a stream, and messages that are typed, by the formats of a
registry.  It counts and reports what it finds.
-/

namespace LinkMonitor

/-- What has been reported so far. -/
structure Stats where
  messages : Nat := 0
  unrecognizedBytes : Nat := 0
  lengthMismatches : Nat := 0
deriving DecidableEq, Repr

def lengthMismatchNote : String := "Message Format Does Not Match Data Length"

/-- The line for a message under a format: the name, and the decoded data if there is any text. -/
def MessageFormat.render (f : MessageFormat) (m : Message) : String :=
  if m.data.length = f.length.toNat then
    match Payload.decode f.spec m.data with
    | some text => f.name ++ ":  " ++ text
    | none => f.name
  else f.name ++ ":  " ++ lengthMismatchNote

/-- A registry, the bytes of a frame that is not complete, and counts. -/
structure Monitor where
  registry : Registry := {}
  reassembler : Reassembler := {}
  stats : Stats := {}
deriving DecidableEq, Repr

namespace Monitor

def pending (m : Monitor) : List UInt8 := m.reassembler.pending

/-- Counts and reports a message, if its header is known. -/
def receive (m : Monitor) (message : Message) : Monitor × List Event :=
  match m.registry.format? message.header with
  | none => (m, [])
  | some f =>
    let mismatch := if message.data.length = f.length.toNat then 0 else 1
    ({ m with stats := { m.stats with
        messages := m.stats.messages + 1
        lengthMismatches := m.stats.lengthMismatches + mismatch } },
      [.decoded (f.render message)])

/-- Counts and reports a byte that belongs to no frame. -/
def reject (m : Monitor) (b : UInt8) : Monitor × List Event :=
  ({ m with stats := { m.stats with unrecognizedBytes := m.stats.unrecognizedBytes + 1 } },
    [.unrecognized b])

def handle (m : Monitor) : Segment → Monitor × List Event
  | .message message => m.receive message
  | .unrecognized b => m.reject b

/-- Handles segments in order. -/
def handleAll (m : Monitor) : List Segment → Monitor × List Event
  | [] => (m, [])
  | s :: ss =>
    let (m, events) := m.handle s
    let (m, rest) := m.handleAll ss
    (m, events ++ rest)

/-- Takes a chunk of the stream. -/
def ingest (m : Monitor) (chunk : List UInt8) : Monitor × List Event :=
  let (segments, reassembler) := m.reassembler.feed m.registry chunk
  { m with reassembler }.handleAll segments

/-- Takes what a source has ready.  Nothing happens if it is not open or has nothing.  The source is
handed a buffer of zeros, and just what it says it has written there is taken. -/
def poll {σ : Type} [ByteSource σ] (m : Monitor) (s : σ) :
    Monitor × σ × List Event × Except SourceError Nat :=
  if ByteSource.isOpen s && 0 < ByteSource.available s then
    let (s, buffer, result) := ByteSource.read s (Vector.replicate (ByteSource.available s) 0)
    match result with
    | .error e => (m, s, [], .error e)
    | .ok count =>
      let (m, events) := m.ingest (buffer.toList.take count)
      (m, s, events, .ok count)
  else (m, s, [], .ok 0)

/-- Takes typed bytes as one message, beside the stream. -/
def submit (m : Monitor) (input : String) :
    Monitor × List Event × Except HexInputError Unit :=
  match HexInput.parse input with
  | .error e => (m, [], .error e)
  | .ok bytes =>
    let segments := match bytes with
      | high :: low :: data =>
        if (m.registry.format? ⟨high, low⟩).isSome then [.message ⟨⟨high, low⟩, data⟩]
        else bytes.map .unrecognized
      | _ => bytes.map .unrecognized
    let (m, events) := m.handleAll segments
    (m, events, .ok ())

/-- Drops the pending bytes. -/
def close (m : Monitor) : Monitor × List Event × Nat :=
  let (dropped, reassembler) := m.reassembler.reset
  let events := if dropped = 0 then []
    else [.note ("discarded " ++ toString dropped ++ " bytes of a partial frame")]
  ({ m with reassembler }, events, dropped)

end Monitor

end LinkMonitor
