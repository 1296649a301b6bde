import LinkMonitor.Monitor
import LinkMonitor.Proofs.Registry.Edits

/-!
# Runs of a monitor

A host drives a monitor by actions: it hands over chunks, polls sources, submits typed bytes,
closes the stream, and changes the registry in between.  A run is a list of actions in any order.
Each poll comes with a source in a state of its own, so that runs cover every behaviour of every
source, and of several sources in turn.
-/

namespace LinkMonitor

/-- What the monitor takes from a source that is polled: nothing at all, or a chunk. -/
def ByteSource.delivery? {σ : Type} [ByteSource σ] (s : σ) : Option (List UInt8) :=
  if isOpen s && 0 < available s then
    match read s (Vector.replicate (available s) 0) with
    | (_, buffer, .ok count) => some (buffer.toList.take count)
    | (_, _, .error _) => none
  else none

namespace Monitor

/-- What a host does with a monitor. -/
inductive Action : Type 1 where
  | ingest (chunk : List UInt8)
  | poll {σ : Type} [ByteSource σ] (source : σ)
  | submit (input : String)
  | close
  | edit (change : Registry.Edit)

/-- What an action gives back. -/
inductive Reply where
  | done
  | polled (result : Except SourceError Nat)
  | submitted (result : Except HexInputError Unit)
  | closed (dropped : Nat)
  | edited (reply : Registry.Edit.Reply)

/-- The monitor after an action, what it reports meanwhile, and what the action gives back. -/
def perform (m : Monitor) : Action → Monitor × List Event × Reply
  | .ingest chunk =>
    let (m, events) := m.ingest chunk
    (m, events, .done)
  | @Action.poll _ _ source =>
    let (m, _, events, result) := m.poll source
    (m, events, .polled result)
  | .submit input =>
    let (m, events, result) := m.submit input
    (m, events, .submitted result)
  | .close =>
    let (m, events, dropped) := m.close
    (m, events, .closed dropped)
  | .edit change =>
    let (registry, events, reply) := m.registry.edit change
    ({ m with registry }, events, .edited reply)

/-- The monitor after some actions, and what each of them reported and gave back. -/
def run (m : Monitor) : List Action → Monitor × List (List Event × Reply)
  | [] => (m, [])
  | a :: as =>
    let (m, output) := m.perform a
    let (m, outputs) := m.run as
    (m, output :: outputs)

/-- All that a run reports. -/
def emitted (m : Monitor) (as : List Action) : List Event :=
  (m.run as).2.flatMap (·.1)

variable {m : Monitor}

@[simp] theorem run_nil (m : Monitor) : m.run [] = (m, []) := rfl

theorem run_cons (m : Monitor) (a : Action) (as : List Action) :
    m.run (a :: as) =
      (((m.perform a).1.run as).1, (m.perform a).2 :: ((m.perform a).1.run as).2) := rfl

theorem emitted_cons (m : Monitor) (a : Action) (as : List Action) :
    m.emitted (a :: as) = (m.perform a).2.1 ++ (m.perform a).1.emitted as := rfl

/-! ## What an action leaves alone -/

theorem handle_reassembler (m : Monitor) (s : Segment) :
    (m.handle s).1.reassembler = m.reassembler := by
  cases s with
  | message message =>
      simp only [handle, receive]
      split <;> rfl
  | unrecognized b => rfl

theorem handle_registry (m : Monitor) (s : Segment) :
    (m.handle s).1.registry = m.registry := by
  cases s with
  | message message =>
      simp only [handle, receive]
      split <;> rfl
  | unrecognized b => rfl

theorem handleAll_cons (m : Monitor) (s : Segment) (ss : List Segment) :
    m.handleAll (s :: ss) =
      (((m.handle s).1.handleAll ss).1, (m.handle s).2 ++ ((m.handle s).1.handleAll ss).2) := rfl

/-- Handling segments moves no byte of the stream. -/
@[simp] theorem handleAll_reassembler (m : Monitor) (ss : List Segment) :
    (m.handleAll ss).1.reassembler = m.reassembler := by
  induction ss generalizing m with
  | nil => rfl
  | cons s ss ih => rw [handleAll_cons, ih, handle_reassembler]

@[simp] theorem handleAll_registry (m : Monitor) (ss : List Segment) :
    (m.handleAll ss).1.registry = m.registry := by
  induction ss generalizing m with
  | nil => rfl
  | cons s ss ih => rw [handleAll_cons, ih, handle_registry]

/-! ## Chunks and polls -/

/-- The monitor once the segments of a chunk have been cut off, but before they are handled. -/
def absorb (m : Monitor) (chunk : List UInt8) : Monitor :=
  { m with reassembler := (m.reassembler.feed m.registry chunk).2 }

theorem ingest_eq_handleAll (m : Monitor) (chunk : List UInt8) :
    m.ingest chunk = (m.absorb chunk).handleAll (m.reassembler.feed m.registry chunk).1 := rfl

theorem registry_ingest (m : Monitor) (chunk : List UInt8) :
    (m.ingest chunk).1.registry = m.registry := by
  rw [ingest_eq_handleAll, handleAll_registry]
  rfl

theorem pending_ingest (m : Monitor) (chunk : List UInt8) :
    (m.ingest chunk).1.pending = (m.registry.segment (m.pending ++ chunk)).2 := by
  rw [ingest_eq_handleAll, pending, handleAll_reassembler]
  rfl

/-- A poll that takes nothing does nothing. -/
theorem poll_of_delivery?_eq_none {σ : Type} [ByteSource σ] {s : σ}
    (h : ByteSource.delivery? s = none) : (m.poll s).1 = m ∧ (m.poll s).2.2.1 = [] := by
  unfold ByteSource.delivery? at h
  unfold poll
  split at h
  · rename_i hready
    rw [if_pos hready]
    split at h
    · contradiction
    · rename_i hread
      simp [hread]
  · rename_i hready
    simp [hready]

/-- A poll that takes a chunk handles the chunk. -/
theorem poll_of_delivery?_eq_some {σ : Type} [ByteSource σ] {s : σ} {chunk : List UInt8}
    (h : ByteSource.delivery? s = some chunk) :
    (m.poll s).1 = (m.ingest chunk).1 ∧ (m.poll s).2.2.1 = (m.ingest chunk).2 := by
  unfold ByteSource.delivery? at h
  unfold poll
  split at h
  · rename_i hready
    rw [if_pos hready]
    split at h
    · rename_i after buffer count hread
      obtain rfl : buffer.toList.take count = chunk := by simpa using h
      simp [hread]
    · contradiction
  · contradiction

/-- What a source has written is ingested, and nothing of the zeros that are left behind it. -/
theorem poll_of_read {σ : Type} [ByteSource σ] {s rest : σ}
    {buffer : Vector UInt8 (ByteSource.available s)} {count : Fin (ByteSource.available s + 1)}
    {written padding : List UInt8} (ho : ByteSource.isOpen s = true)
    (ha : 0 < ByteSource.available s)
    (hread : ByteSource.read s (Vector.replicate (ByteSource.available s) 0) =
      (rest, buffer, .ok count))
    (hbuffer : buffer.toList = written ++ padding) (hcount : written.length = count) :
    m.poll s = ((m.ingest written).1, rest, (m.ingest written).2, .ok written.length) := by
  have hready : (ByteSource.isOpen s && decide (0 < ByteSource.available s)) = true := by
    simpa using ⟨ho, ha⟩
  rw [poll, if_pos hready, hread]
  simp only [hbuffer, ← hcount, List.take_left]

/-- A change to the monitor that ingesting bytes may come before may be put off behind a poll too.
-/
theorem poll_comm {σ : Type} [ByteSource σ] {f : Monitor → Monitor}
    (h : ∀ chunk, (f m).ingest chunk = (f (m.ingest chunk).1, (m.ingest chunk).2)) (s : σ) :
    (f m).poll s = (f (m.poll s).1, (m.poll s).2) := by
  unfold poll
  split
  · rcases ByteSource.read s (Vector.replicate (ByteSource.available s) 0) with
      ⟨rest, buffer, e | count⟩
    · rfl
    · simp only [h]
  · rfl

/-- What a poll leaves of a source has nothing to do with the monitor. -/
theorem source_poll {σ : Type} [ByteSource σ] (m m' : Monitor) (s : σ) :
    (m.poll s).2.1 = (m'.poll s).2.1 := by
  unfold poll
  split
  · rcases ByteSource.read s (Vector.replicate (ByteSource.available s) 0) with
      ⟨rest, buffer, e | count⟩ <;> rfl
  · rfl

end Monitor

end LinkMonitor
